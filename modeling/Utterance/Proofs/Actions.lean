import Utterance.Export.Writing
import Utterance.Proofs.Places

/-!
# Actions — what an action does to a tree

An action on a file tree starts from the events told so far and from the
tree, and returns a value with both as they then are, or fails. What it
returns can be said without the monads: a sequence returns if its first
action does and then its second one (`Action.returns_bind`), a request if
the tree grants it (`Export.returns_request`). So can its failures: a
sequence fails where its first action does, or later where its second one
does (`Action.fails_bind`). An action that only reads keeps the tree,
however it goes (`Action.KeepsTree`).
-/

namespace Utterance

namespace Action

variable {α β : Type}

/-- **How an action goes** on a tree: the value or the error, the events
told by then, the last one first, and the tree that is left. -/
def outcome (action : Action (StateM FileTree) α) (told : List Event) (tree : FileTree) :
    Except Error α × List Event × FileTree :=
  let ((result, told), after) := (action.run.run told).run tree
  (result, told, after)

/-- **An action returns** a value, and leaves these events and this tree. -/
def Returns (action : Action (StateM FileTree) α) (start : List Event × FileTree) (value : α)
    (stop : List Event × FileTree) : Prop :=
  action.outcome start.1 start.2 = (.ok value, stop)

variable {action : Action (StateM FileTree) α} {start stop : List Event × FileTree}

theorem returns_pure {a value : α} :
    (pure a : Action (StateM FileTree) α).Returns start value stop ↔ value = a ∧ stop = start := by
  have hpure : (pure a : Action (StateM FileTree) α).outcome start.1 start.2 = (.ok a, start) := rfl
  rw [Returns, hpure]
  simp [eq_comm]

theorem returns_throw {e : Error} {value : α} :
    ¬ (throw e : Action (StateM FileTree) α).Returns start value stop := by
  have hthrow : (throw e : Action (StateM FileTree) α).outcome start.1 start.2 =
      (.error e, start) := rfl
  rw [Returns, hthrow]
  simp

/-- An operation on the tree returns, and tells nothing. -/
theorem returns_liftM {operation : StateM FileTree α} {value : α} :
    (liftM operation : Action (StateM FileTree) α).Returns start value stop ↔
      operation.run start.2 = (value, stop.2) ∧ stop.1 = start.1 := by
  have hlift : (liftM operation : Action (StateM FileTree) α).outcome start.1 start.2 =
      (.ok (operation.run start.2).1, start.1, (operation.run start.2).2) := rfl
  obtain ⟨told, tree⟩ := stop
  rw [Returns, hlift]
  simp only [Prod.mk.injEq, Except.ok.injEq]
  constructor
  · rintro ⟨rfl, rfl, rfl⟩
    exact ⟨rfl, rfl⟩
  · rintro ⟨hrun, rfl⟩
    rw [hrun]
    exact ⟨rfl, rfl, rfl⟩

/-- A change of what was told returns. -/
theorem returns_modify {change : List Event → List Event} {value : Unit}
    {start stop : List Event × FileTree} :
    (modify change : Action (StateM FileTree) Unit).Returns start value stop ↔
      stop = (change start.1, start.2) := by
  have hmodify : (modify change : Action (StateM FileTree) Unit).outcome start.1 start.2 =
      (.ok (), change start.1, start.2) := rfl
  rw [Returns, hmodify]
  simp [eq_comm]

/-- **A sequence goes on** where its first action returns, and ends where it
fails. -/
theorem outcome_bind (action : Action (StateM FileTree) α) (next : α → Action (StateM FileTree) β)
    (told : List Event) (tree : FileTree) :
    (action >>= next).outcome told tree =
      match action.outcome told tree with
      | (.ok a, told, tree) => (next a).outcome told tree
      | (.error e, middle) => (.error e, middle) := by
  rcases hfirst : (action.run.run told).run tree with ⟨⟨e | a, told⟩, tree⟩
  · simp only [outcome, ExceptT.run_bind, StateT.run_bind, hfirst]
    rfl
  · simp only [outcome, ExceptT.run_bind, StateT.run_bind, hfirst]
    rfl

/-- **A sequence returns** what its second action returns after the first. -/
theorem returns_bind {next : α → Action (StateM FileTree) β} {value : β} :
    (action >>= next).Returns start value stop ↔
      ∃ a middle, action.Returns start a middle ∧ (next a).Returns middle value stop := by
  unfold Returns
  rw [outcome_bind]
  rcases action.outcome start.1 start.2 with ⟨e | a, middle⟩
  · simp
  · constructor
    · exact fun h => ⟨a, middle, rfl, h⟩
    · rintro ⟨_, _, hfirst, h⟩
      obtain ⟨ha, rfl⟩ := Prod.mk.inj hfirst
      obtain rfl := Except.ok.inj ha
      exact h

theorem Returns.map {f : α → β} {value : α} (h : action.Returns start value stop) :
    (f <$> action).Returns start (f value) stop := by
  rw [map_eq_pure_bind]
  exact returns_bind.2 ⟨value, stop, h, returns_pure.2 ⟨rfl, rfl⟩⟩

/-- **What each step of a loop keeps** holds of what the loop returns. -/
theorem Returns.foldlM {P : β → Prop} {next : β → α → Action (StateM FileTree) β}
    (hstep : ∀ b a {start value stop}, P b → (next b a).Returns start value stop → P value)
    {items : List α} {b value : β} {start stop : List Event × FileTree} (hb : P b)
    (h : (items.foldlM next b).Returns start value stop) : P value := by
  induction items generalizing b start with
  | nil =>
    obtain ⟨rfl, -⟩ := returns_pure.1 h
    exact hb
  | cons a items ih =>
    rw [List.foldlM_cons] at h
    obtain ⟨b', middle, hfirst, hrest⟩ := returns_bind.1 h
    exact ih (hstep b a hb hfirst) hrest

/-! ## Failing -/

/-- **An action fails** with an error, and leaves these events and this
tree. -/
def Fails (action : Action (StateM FileTree) α) (start : List Event × FileTree) (e : Error)
    (stop : List Event × FileTree) : Prop :=
  action.outcome start.1 start.2 = (.error e, stop)

/-- Every action returns or fails. -/
theorem returns_or_fails (action : Action (StateM FileTree) α) (start : List Event × FileTree) :
    (∃ a stop, action.Returns start a stop) ∨ ∃ e stop, action.Fails start e stop := by
  unfold Returns Fails
  rcases action.outcome start.1 start.2 with ⟨e | a, stop⟩
  · exact .inr ⟨e, stop, rfl⟩
  · exact .inl ⟨a, stop, rfl⟩

/-- An action returns one thing only. -/
theorem Returns.unique {value value' : α} {stop' : List Event × FileTree}
    (h : action.Returns start value stop) (h' : action.Returns start value' stop') :
    value = value' ∧ stop = stop' := by
  obtain ⟨hvalue, hstop⟩ := Prod.mk.inj (h.symm.trans h')
  exact ⟨Except.ok.inj hvalue, hstop⟩

/-- What fails does not return. -/
theorem Fails.not_returns {e : Error} {value : α} {stop' : List Event × FileTree}
    (h : action.Fails start e stop) : ¬ action.Returns start value stop' := by
  intro h'
  obtain ⟨hresult, -⟩ := Prod.mk.inj (h.symm.trans h')
  cases hresult

theorem fails_throw (e : Error) (start : List Event × FileTree) :
    (throw e : Action (StateM FileTree) α).Fails start e start := rfl

/-- **A sequence fails** where its first action fails, or where the second
one does after it. -/
theorem fails_bind {next : α → Action (StateM FileTree) β} {e : Error} :
    (action >>= next).Fails start e stop ↔
      action.Fails start e stop ∨
        ∃ a middle, action.Returns start a middle ∧ (next a).Fails middle e stop := by
  unfold Returns Fails
  rw [outcome_bind]
  rcases action.outcome start.1 start.2 with ⟨e' | a, middle⟩
  · simp
  · constructor
    · exact fun h => .inr ⟨a, middle, rfl, h⟩
    · rintro (hfirst | ⟨_, _, hfirst, h⟩)
      · cases hfirst
      · obtain ⟨ha, rfl⟩ := Prod.mk.inj hfirst
        obtain rfl := Except.ok.inj ha
        exact h

theorem Fails.map {f : α → β} {e : Error} (h : action.Fails start e stop) :
    (f <$> action).Fails start e stop := by
  rw [map_eq_pure_bind]
  exact fails_bind.2 (.inl h)

/-! ## Reading -/

/-- **An action keeps the tree**, whether it returns or fails. -/
def KeepsTree (action : Action (StateM FileTree) α) : Prop :=
  ∀ told tree, (action.outcome told tree).2.2 = tree

theorem KeepsTree.returns (h : action.KeepsTree) {value : α}
    (hrun : action.Returns start value stop) : stop.2 = start.2 := by
  have hkept := h start.1 start.2
  rwa [hrun] at hkept

theorem KeepsTree.fails (h : action.KeepsTree) {e : Error} (hrun : action.Fails start e stop) :
    stop.2 = start.2 := by
  have hkept := h start.1 start.2
  rwa [hrun] at hkept

theorem keepsTree_pure (a : α) : (pure a : Action (StateM FileTree) α).KeepsTree :=
  fun _ _ => rfl

theorem keepsTree_throw (e : Error) : (throw e : Action (StateM FileTree) α).KeepsTree :=
  fun _ _ => rfl

theorem keepsTree_modify (change : List Event → List Event) :
    (modify change : Action (StateM FileTree) Unit).KeepsTree :=
  fun _ _ => rfl

/-- An operation that changes nothing. -/
theorem keepsTree_liftM {operation : StateM FileTree α}
    (h : ∀ tree, (operation.run tree).2 = tree) :
    (liftM operation : Action (StateM FileTree) α).KeepsTree :=
  fun _ tree => h tree

theorem KeepsTree.bind {next : α → Action (StateM FileTree) β} (h : action.KeepsTree)
    (hnext : ∀ a, (next a).KeepsTree) : (action >>= next).KeepsTree := by
  intro told tree
  have hkept := h told tree
  rw [outcome_bind]
  rcases hfirst : action.outcome told tree with ⟨e | a, middle⟩
  · rwa [hfirst] at hkept
  · rw [hfirst] at hkept
    exact (hnext a middle.1 middle.2).trans hkept

theorem KeepsTree.foldlM {next : β → α → Action (StateM FileTree) β}
    (h : ∀ b a, (next b a).KeepsTree) (items : List α) (b : β) :
    (items.foldlM next b).KeepsTree := by
  induction items generalizing b with
  | nil => exact keepsTree_pure b
  | cons a items ih =>
    rw [List.foldlM_cons]
    exact (h b a).bind ih

end Action

namespace Export

open Utterance.Action

variable {start stop : List Event × FileTree}

theorem returns_tell {event : Event} {value : Unit} :
    (tell event : Action (StateM FileTree) Unit).Returns start value stop ↔
      stop = (event :: start.1, start.2) :=
  returns_modify

theorem returns_telling {α : Type} (logged : Logged α) :
    (telling logged : Action (StateM FileTree) α).Returns start logged.value
      (logged.events.reverse ++ start.1, start.2) := rfl

/-- **A request returns** what the tree grants. -/
theorem returns_request {operation : FileTree → Except FileError FileTree} {value : Unit} :
    (request (FileTree.attempt operation) : Action (StateM FileTree) Unit).Returns
        start value stop ↔
      operation start.2 = .ok stop.2 ∧ stop.1 = start.1 := by
  unfold request
  simp only [returns_bind, returns_liftM]
  cases hoperation : operation start.2 with
  | error e =>
    have hrun : (FileTree.attempt operation).run start.2 = (.error e, start.2) := by
      simp only [StateT.run, FileTree.attempt, hoperation]
    simp only [hrun, reduceCtorEq, false_and, iff_false]
    rintro ⟨_, middle, ⟨hresult, -⟩, hrest⟩
    obtain ⟨rfl, -⟩ := Prod.mk.inj hresult
    exact returns_throw hrest
  | ok after =>
    have hrun : (FileTree.attempt operation).run start.2 = (.ok (), after) := by
      simp only [StateT.run, FileTree.attempt, hoperation]
    simp only [hrun]
    constructor
    · rintro ⟨_, middle, ⟨hresult, htold⟩, hrest⟩
      obtain ⟨rfl, hafter⟩ := Prod.mk.inj hresult
      obtain ⟨-, rfl⟩ := returns_pure.1 hrest
      exact ⟨congrArg Except.ok hafter, htold⟩
    · rintro ⟨hafter, htold⟩
      rw [Except.ok.inj hafter]
      exact ⟨_, stop, ⟨rfl, htold⟩, returns_pure.2 ⟨rfl, rfl⟩⟩

/-- **A request fails** if the tree refuses it, and changes nothing. -/
theorem fails_request {operation : FileTree → Except FileError FileTree} {cause : FileError}
    (h : operation start.2 = .error cause) :
    (request (FileTree.attempt operation) : Action (StateM FileTree) Unit).Fails start
      (.io cause.message) start := by
  have hrun : (FileTree.attempt operation).run start.2 = (.error cause, start.2) := by
    simp only [StateT.run, FileTree.attempt, h]
  exact fails_bind.2 (.inr ⟨_, start, returns_liftM.2 ⟨hrun, rfl⟩, fails_throw _ _⟩)

theorem returns_requireFolder {folder : Text} {value : Unit} :
    (requireFolder folder : Action (StateM FileTree) Unit).Returns start value stop ↔
      start.2.leadsToFolder folder = true ∧ stop = start := by
  have hrun : (FileAccess.isFolder folder : StateM FileTree Bool).run start.2 =
      (start.2.leadsToFolder folder, start.2) := rfl
  unfold requireFolder
  simp only [returns_bind, returns_liftM, hrun]
  constructor
  · rintro ⟨_, middle, ⟨hresult, htold⟩, hrest⟩
    obtain ⟨rfl, htree⟩ := Prod.mk.inj hresult
    split at hrest
    · rename_i hfolder
      obtain ⟨-, rfl⟩ := returns_pure.1 hrest
      exact ⟨hfolder, Prod.ext htold htree.symm⟩
    · exact absurd hrest returns_throw
  · rintro ⟨hfolder, rfl⟩
    rw [hfolder]
    exact ⟨_, stop, ⟨rfl, rfl⟩, returns_pure.2 ⟨rfl, rfl⟩⟩

theorem fails_requireFolder {folder : Text} (h : start.2.leadsToFolder folder = false) :
    (requireFolder folder : Action (StateM FileTree) Unit).Fails start
      (.engine s!"Output folder does not exist: '{folder.str}'") start := by
  have hrun : (FileAccess.isFolder folder : StateM FileTree Bool).run start.2 =
      (false, start.2) := congrArg (·, start.2) h
  exact fails_bind.2 (.inr ⟨_, start, returns_liftM.2 ⟨hrun, rfl⟩, fails_throw _ _⟩)

end Export

end Utterance
