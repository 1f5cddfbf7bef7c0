import Utterance.Export.Alexa
import Utterance.Export.Dialogflow
import Utterance.Proofs.Emission
import Utterance.Proofs.SlotReports

/-!
# Phrases — a sentence in runs and as a sample

Both exports read the pieces of a sentence, one into runs and the other
into a sample. The runs lose nothing (`flatMap_render_parts`): they give
the sentence back when a slot is shown between angle brackets, and its
sample when it is shown between braces. They are as long as can be, since
each character joins the literal run behind it, and no placeholder is left
inside one (`slotNames_of_mem_parts`), because what reads as a placeholder
in a run reads as one in the sentence. A sample holds its slots between
the only braces there are, so that it tells its sentence
(`Alexa.map_unbrace_sample`).
-/

namespace Utterance

open Sentence

/-- The text of a piece, given how a slot is shown. -/
def Piece.render (shown : Text → Text) : Piece → Text
  | .char c => [c]
  | .slot name => shown name

/-- A name between angle brackets. -/
def inAngles (name : Text) : Text :=
  '<' :: name ++ ['>']

/-- A name between braces. -/
def inBraces (name : Text) : Text :=
  '\x7b' :: name ++ ['\x7d']

theorem Piece.text_eq_render : Piece.text = Piece.render inAngles := by
  funext piece
  cases piece <;> rfl

theorem Alexa.samplePiece_eq_render : samplePiece = Piece.render inBraces := by
  funext piece
  cases piece <;> rfl

namespace Dialogflow

/-- The text of a run, given how a slot is shown. -/
def Part.render (shown : Text → Text) : Part → Text
  | .literal text => text
  | .slot _ name _ => shown name

/-- The slot that a run names. -/
def Part.name? : Part → Option Text
  | .literal _ => none
  | .slot _ name _ => some name

/-- Of two runs side by side, one names a slot. -/
def Part.Apart (p q : Part) : Prop :=
  p.name?.isSome ∨ q.name?.isSome

variable {slots : List Slot} {shown : Text → Text}

theorem render_slotPart (name : Text) : (slotPart slots name).render shown = shown name := by
  unfold slotPart
  split <;> rfl

@[simp] theorem name?_slotPart (name : Text) : (slotPart slots name).name? = some name := by
  unfold slotPart
  split <;> rfl

/-- A placeholder is no literal run. -/
theorem slotPart_ne_literal (name text : Text) : slotPart slots name ≠ .literal text := by
  intro h
  have hname : (slotPart slots name).name? = some name := name?_slotPart name
  rw [h] at hname
  cases hname

/-! ## A piece in front of some runs -/

/-- A character joins the literal run behind it, or is one of its own. -/
theorem putPiece_char_cases (slots : List Slot) (c : Char) (rest : List Part) :
    (∃ text more, rest = .literal text :: more ∧
      putPiece slots (.char c) rest = .literal (c :: text) :: more) ∨
    (∀ p ∈ rest.head?, p.name?.isSome) ∧
      putPiece slots (.char c) rest = .literal [c] :: rest := by
  rcases rest with _ | ⟨_ | _, more⟩
  · exact .inr ⟨by simp, rfl⟩
  · exact .inl ⟨_, more, rfl, rfl⟩
  · exact .inr ⟨by simp [Part.name?], rfl⟩

theorem flatMap_render_putPiece (slots : List Slot) (piece : Piece) (rest : List Part) :
    (putPiece slots piece rest).flatMap (Part.render shown) =
      piece.render shown ++ rest.flatMap (Part.render shown) := by
  cases piece with
  | slot name => simp [putPiece, render_slotPart, Piece.render]
  | char c =>
    rcases putPiece_char_cases slots c rest with ⟨text, more, rfl, hput⟩ | ⟨-, hput⟩
    · simp [hput, Part.render, Piece.render]
    · simp [hput, Part.render, Piece.render]

theorem filterMap_name?_putPiece (slots : List Slot) (piece : Piece) (rest : List Part) :
    (putPiece slots piece rest).filterMap Part.name? =
      piece.slot?.toList ++ rest.filterMap Part.name? := by
  cases piece with
  | slot name => simp [putPiece, Piece.slot?]
  | char c =>
    rcases putPiece_char_cases slots c rest with ⟨text, more, rfl, hput⟩ | ⟨-, hput⟩
    · simp [hput, List.filterMap_cons, Part.name?, Piece.slot?]
    · simp [hput, List.filterMap_cons, Part.name?, Piece.slot?]

/-- Runs that are apart stay apart. -/
theorem isChain_putPiece (slots : List Slot) (piece : Piece) {rest : List Part}
    (h : rest.IsChain Part.Apart) : (putPiece slots piece rest).IsChain Part.Apart := by
  cases piece with
  | slot name => exact h.cons fun _ _ => .inl (by simp)
  | char c =>
    rcases putPiece_char_cases slots c rest with ⟨text, more, rfl, hput⟩ | ⟨hhead, hput⟩
    · rw [hput]
      obtain ⟨hmore, hchain⟩ := List.isChain_cons.1 h
      exact hchain.cons hmore
    · rw [hput]
      exact h.cons fun p hp => .inr (hhead p hp)

/-! ## The runs of a sentence -/

theorem parts_of_placeholder {s name rest : Text} (h : placeholder? s = some (name, rest)) :
    parts slots s = slotPart slots name :: parts slots rest := by
  rw [parts, pieces_of_placeholder h]
  rfl

theorem parts_cons {c : Char} {r : Text} (h : placeholder? (c :: r) = none) :
    parts slots (c :: r) = putPiece slots (.char c) (parts slots r) := by
  rw [parts, pieces_cons h]
  rfl

/-- **The runs lose nothing**: they show what the pieces show. -/
theorem flatMap_render_parts (slots : List Slot) (shown : Text → Text) (s : Text) :
    (parts slots s).flatMap (Part.render shown) = (pieces s).flatMap (Piece.render shown) := by
  unfold parts
  induction pieces s with
  | nil => rfl
  | cons piece more ih =>
    rw [List.foldr_cons, flatMap_render_putPiece, ih, List.flatMap_cons]

/-- With its slots between angle brackets a sentence is what it was. -/
theorem flatMap_inAngles_parts (slots : List Slot) (s : Text) :
    (parts slots s).flatMap (Part.render inAngles) = s := by
  rw [flatMap_render_parts, ← Piece.text_eq_render, flatMap_text_pieces]

/-- With its slots between braces a sentence is its sample. -/
theorem flatMap_inBraces_parts (slots : List Slot) (s : Text) :
    (parts slots s).flatMap (Part.render inBraces) = Alexa.sample s := by
  rw [flatMap_render_parts, ← Alexa.samplePiece_eq_render, Alexa.sample]

theorem filterMap_name?_parts (slots : List Slot) (s : Text) :
    (parts slots s).filterMap Part.name? = slotNames s := by
  unfold parts slotNames
  induction pieces s with
  | nil => rfl
  | cons piece more ih =>
    rw [List.foldr_cons, filterMap_name?_putPiece, ih, List.filterMap_cons]
    cases piece.slot? <;> rfl

theorem isChain_parts (slots : List Slot) (s : Text) :
    (parts slots s).IsChain Part.Apart := by
  unfold parts
  induction pieces s with
  | nil => exact .nil
  | cons piece more ih => exact isChain_putPiece slots piece ih

/-- A text that begins another one has no placeholder at its head that the
other one does not have. -/
theorem placeholder?_eq_none_of_prefix {s t : Text} (h : placeholder? (t ++ s) = none) :
    placeholder? t = none := by
  cases hfound : placeholder? t with
  | none => rfl
  | some found =>
    obtain ⟨name, rest⟩ := found
    obtain ⟨hn, rfl⟩ := placeholder?_eq_some.1 hfound
    have hmore : placeholder? ('<' :: name ++ '>' :: rest ++ s) = some (name, rest ++ s) :=
      placeholder?_eq_some.2 ⟨hn, by simp⟩
    rw [h] at hmore
    cases hmore

/-- **A literal run** is not empty, and all of it reads as characters. -/
theorem slotNames_of_mem_parts {s text : Text} (h : .literal text ∈ parts slots s) :
    text ≠ [] ∧ slotNames text = [] := by
  fun_induction pieces s generalizing text with
  | case1 s name rest hslot ih =>
    rw [parts_of_placeholder hslot] at h
    rcases List.mem_cons.1 h with h | h
    · exact absurd h.symm (slotPart_ne_literal name text)
    · exact ih h
  | case2 => simp [parts] at h
  | case3 c r hchar ih =>
    rw [parts_cons hchar] at h
    rcases putPiece_char_cases slots c (parts slots r) with
      ⟨t, more, hparts, hput⟩ | ⟨-, hput⟩
    · rw [hput] at h
      rcases List.mem_cons.1 h with h | h
      · -- the run that grows is the beginning of what stands behind the character
        obtain rfl := Part.literal.inj h
        have hr := flatMap_inAngles_parts slots r
        rw [hparts, List.flatMap_cons] at hr
        rw [← hr, ← List.cons_append] at hchar
        have hnone : placeholder? (c :: t) = none := placeholder?_eq_none_of_prefix hchar
        have ht : .literal t ∈ parts slots r := by simp [hparts]
        refine ⟨by simp, ?_⟩
        rw [slotNames, pieces_cons hnone]
        exact (ih ht).2
      · exact ih (by simp [hparts, h])
    · rw [hput] at h
      rcases List.mem_cons.1 h with h | h
      · obtain rfl := Part.literal.inj h
        have hnone : placeholder? [c] = none :=
          placeholder?_eq_none_of_prefix (s := r) (by simpa using hchar)
        refine ⟨by simp, ?_⟩
        rw [slotNames, pieces_cons hnone]
        simp [Piece.slot?]
      · exact ih h

end Dialogflow

/-! ## Samples -/

namespace Alexa

/-- The angle bracket that a brace of a sample stands for. -/
def unbrace (c : Char) : Char :=
  if c = '\x7b' then '<' else if c = '\x7d' then '>' else c

theorem map_unbrace_of_notMem {t : Text} (hopen : '\x7b' ∉ t) (hclose : '\x7d' ∉ t) :
    t.map unbrace = t := by
  refine (List.map_congr_left fun c hc => ?_).trans (List.map_id t)
  have hne : c ≠ '\x7b' := fun h => hopen (h ▸ hc)
  have hne' : c ≠ '\x7d' := fun h => hclose (h ▸ hc)
  simp [unbrace, hne, hne']

/-- **A sample tells its sentence**, if that has no brace. -/
theorem map_unbrace_sample {s : Text} (hopen : '\x7b' ∉ s) (hclose : '\x7d' ∉ s) :
    (sample s).map unbrace = s := by
  conv_rhs => rw [← flatMap_text_pieces s]
  rw [sample, List.map_flatMap]
  refine List.flatMap_congr fun piece hpiece => ?_
  -- a piece is a part of the sentence, and has no brace either
  have hsub : piece.text ⊆ s := by
    intro c hc
    rw [← flatMap_text_pieces s]
    exact List.mem_flatMap.2 ⟨piece, hpiece, hc⟩
  cases piece with
  | char c => exact map_unbrace_of_notMem (fun h => hopen (hsub h)) fun h => hclose (hsub h)
  | slot name =>
    have hname : name ⊆ s := fun c hc => hsub (by simp [Piece.text, hc])
    have hkept : name.map unbrace = name :=
      map_unbrace_of_notMem (fun h => hopen (hname h)) fun h => hclose (hname h)
    simp [samplePiece, Piece.text, hkept, unbrace]

end Alexa

/-- What a collection is expanded to is concrete. -/
theorem Collection.concrete_of_mem_sentences {c : Collection} {fuel : Nat} {vars : Variables}
    {order : Order} {expanded : Logged Expanded} (h : c.expand fuel vars order = some expanded)
    {s : Text} (hs : s ∈ expanded.value.sentences) : ConcreteSentence s := by
  obtain ⟨runs, hmap, rfl⟩ := Option.map_eq_some_iff.1 h
  have hgathered : s ∈ runs.flatMap Run.sentences := (order.arrange_perm id _).mem_iff.1 hs
  obtain ⟨run, hrun, hmem⟩ := List.mem_flatMap.1 hgathered
  obtain ⟨template, -, hof⟩ := exists_mem_of_mapM hmap hrun
  rw [Run.eq_upTo hof] at hmem
  exact Run.concrete_of_mem_sentences hmem

/-- **Both exports split a sentence alike, and lose nothing.** The runs of
any text give it back when a slot is shown between angle brackets, and its
sample when it is shown between braces, and the slots they name are those of
the text, in order. A literal run is not empty and holds no placeholder, and
no two of them stand side by side. A text without braces is told by its
sample. No sentence of a collection has a brace, so that two of them with the
same sample are the same. -/
theorem sentences_split_without_loss :
    (∀ (e : Expanded) (s : Text),
      (Dialogflow.parts e.slots s).flatMap (Dialogflow.Part.render inAngles) = s ∧
      (Dialogflow.parts e.slots s).flatMap (Dialogflow.Part.render inBraces) = Alexa.sample s ∧
      (Dialogflow.parts e.slots s).filterMap Dialogflow.Part.name? = slotNames s ∧
      (∀ text, .literal text ∈ Dialogflow.parts e.slots s →
        text ≠ [] ∧ ∀ name, IsIdentifier name → ¬ inAngles name <:+: text) ∧
      (Dialogflow.parts e.slots s).IsChain Dialogflow.Part.Apart ∧
      ('\x7b' ∉ s → '\x7d' ∉ s → (Alexa.sample s).map Alexa.unbrace = s)) ∧
    ∀ (c : Collection) (fuel : Nat) (vars : Variables) (order : Order)
      (expanded : Logged Expanded), c.expand fuel vars order = some expanded →
      ∀ s ∈ expanded.value.sentences, '\x7b' ∉ s ∧ '\x7d' ∉ s ∧
        ∀ t ∈ expanded.value.sentences, Alexa.sample s = Alexa.sample t → s = t := by
  constructor
  · intro e s
    refine ⟨Dialogflow.flatMap_inAngles_parts e.slots s,
      Dialogflow.flatMap_inBraces_parts e.slots s, Dialogflow.filterMap_name?_parts e.slots s,
      fun text htext => ?_, Dialogflow.isChain_parts e.slots s, Alexa.map_unbrace_sample⟩
    obtain ⟨hne, hnames⟩ := Dialogflow.slotNames_of_mem_parts htext
    refine ⟨hne, fun name hn hin => ?_⟩
    have hmem : name ∈ slotNames text := mem_slotNames_iff.2 ⟨hn, hin⟩
    rw [hnames] at hmem
    cases hmem
  · intro c fuel vars order expanded h s hs
    have hno : ∀ t ∈ expanded.value.sentences, '\x7b' ∉ t ∧ '\x7d' ∉ t := fun t ht =>
      have hconcrete := c.concrete_of_mem_sentences h ht
      ⟨hconcrete.no_meta _ (by simp), hconcrete.no_meta _ (by simp)⟩
    refine ⟨(hno s hs).1, (hno s hs).2, fun t ht hsame => ?_⟩
    have htold : ∀ u ∈ expanded.value.sentences, (Alexa.sample u).map Alexa.unbrace = u :=
      fun u hu => Alexa.map_unbrace_sample (hno u hu).1 (hno u hu).2
    calc s = (Alexa.sample s).map Alexa.unbrace := (htold s hs).symm
      _ = (Alexa.sample t).map Alexa.unbrace := by rw [hsame]
      _ = t := htold t ht

/-- Stray brackets of every kind, two placeholders side by side and one
behind an opening bracket, and an intent that emits such a sentence. -/
theorem sentences_split_without_loss_stray :
    let intent : Collection :=
      { name := "i".toList
        kind := .intent
        latestFirst := [{ text := "[a ]<x><y-1> b".toList }]
        slots := [{ name := "x".toList, type := some "T".toList, «example» := some [] }] }
    let e : Expanded :=
      { name := intent.name, kind := .intent, slots := intent.slots, sentences := [],
        diagnostics := [] }
    let s := "<<x>y> <x><1> <x".toList
    .literal "y> ".toList ∈ Dialogflow.parts e.slots s ∧ '\x7b' ∉ s ∧ '\x7d' ∉ s ∧
      (Dialogflow.parts e.slots s).flatMap (Dialogflow.Part.render inAngles) = s ∧
      Alexa.sample s = "<\x7bx\x7dy> \x7bx\x7d<1> <x".toList ∧
      (Alexa.sample s).map Alexa.unbrace = s ∧
      (IsIdentifier "y".toList ∧ ¬ inAngles "y".toList <:+: "y> ".toList) ∧
      ∃ expanded, intent.expand 10 (.ofList []) .found = some expanded ∧
        "a <x><y-1> b".toList ∈ expanded.value.sentences ∧
        ∀ t ∈ expanded.value.sentences,
          Alexa.sample "a <x><y-1> b".toList = Alexa.sample t → "a <x><y-1> b".toList = t := by
  intro intent e s
  obtain ⟨hsplit, hcollections⟩ := sentences_split_without_loss
  obtain ⟨hangles, -, -, hliteral, -, hsample⟩ := hsplit e s
  have hopen : '\x7b' ∉ s := by decide
  have hclose : '\x7d' ∉ s := by decide
  have hmem : .literal "y> ".toList ∈ Dialogflow.parts e.slots s := by decide +kernel
  have hname : IsIdentifier "y".toList := isIdentifier_singleton (by decide)
  have hrun : (intent.expand 10 (.ofList []) .found).map (fun e => e.value.sentences) =
      some ["<x><y-1> b".toList, "a <x><y-1> b".toList] := by
    decide +kernel
  obtain ⟨expanded, hexpanded, hsentences⟩ := Option.map_eq_some_iff.1 hrun
  have hs : "a <x><y-1> b".toList ∈ expanded.value.sentences := by simp [hsentences]
  obtain ⟨-, -, hdistinct⟩ := hcollections intent 10 (.ofList []) .found expanded hexpanded _ hs
  exact ⟨hmem, hopen, hclose, hangles, by decide +kernel, hsample hopen hclose,
    ⟨hname, (hliteral _ hmem).2 _ hname⟩, expanded, hexpanded, hs, hdistinct⟩

end Utterance
