import Utterance.Proofs.Invariants
import Utterance.Proofs.Readings

/-!
# Names — what a loaded model calls things

The grammar says what a name is made of: a collection or a slot is called by
an identifier, a language by a language code, and a variable by any
characters of identifiers (`Line.wellNamed_of_parse`). A model takes its
names from parsed lines only, so that the collections of every loaded model
are called by identifiers (`Workspace.identifiers_addAll`), and its language
by a language code (`Workspace.isLanguageCode_addAll`).
-/

namespace Utterance

/-! ## One line -/

namespace Line

/-- The names in a line have the form of their kind. -/
def WellNamed : Line → Prop
  | language _ code => IsLanguageCode code.text
  | opening _ _ name => IsIdentifier name.text
  | slot _ name _ _ _ _ => IsIdentifier name.text
  | definition name _ _ => name ≠ [] ∧ ∀ c ∈ name, isIdentChar c = true
  | invocation _ _ => True
  | sentence _ => True

variable {l : Line}

theorem wellNamed_of_declares {k : Keyword} {written rest : Text}
    (h : k.Declares written rest l) : l.WellNamed := by
  cases h with
  | invocation => exact trivial
  | language hcode => exact hcode.text
  | intent hname => exact hname.text
  | entity hname => exact hname.text
  | slot hname => exact hname.text

theorem wellNamed_of_means {t : Text} (h : Means t l) : l.WellNamed := by
  cases h with
  | definition h =>
    obtain ⟨-, hne, hname, -⟩ := h
    exact ⟨hne, hname⟩
  | sentence => exact trivial

/-- **The grammar gives names their form.** -/
theorem wellNamed_of_parse {t : Text} (h : parse t = .ok l) : l.WellNamed := by
  rcases declares_or_means_of_parse h with ⟨k, -, hdeclares⟩ | ⟨-, -, hmeans⟩
  · exact wellNamed_of_declares hdeclares
  · exact wellNamed_of_means hmeans

theorem isIdentifier_of_opened? (hl : l.WellNamed) {kind : Kind} {name : Text}
    (h : l.opened? = some (kind, name)) : IsIdentifier name := by
  cases l with
  | opening kind keyword opened =>
    obtain ⟨-, rfl⟩ := Prod.mk.inj (Option.some.inj h)
    exact hl
  | _ => cases h

theorem isLanguageCode_of_language? (hl : l.WellNamed) {code : Text}
    (h : l.language? = some code) : IsLanguageCode code := by
  cases l with
  | language keyword declared =>
    obtain rfl := Option.some.inj h
    exact hl
  | _ => cases h

end Line

/-! ## Loaded models -/

theorem Source.wellNamed_of_mem_declarations {s : Source} {d : Declaration}
    (hd : d ∈ s.declarations) : d.line.WellNamed := by
  obtain ⟨line, -, hline⟩ := List.mem_filterMap.1 hd
  exact Line.wellNamed_of_parse (SourceLine.declaration?_eq_some.1 hline).1

/-- A source calls collections by identifiers. -/
theorem Source.keeps_identifiers (s : Source) : s.Keeps fun _ c => IsIdentifier c.name where
  opened _ hd _ _ h := Line.isIdentifier_of_opened? (wellNamed_of_mem_declarations hd) h
  declared d _ kind c hc := by rwa [Line.name_addTo]

/-- A source leaves the language of a model or calls it by a language code. -/
theorem Model.isLanguageCode_extend {m : Model} (hm : Line.IsLanguageCode m.language) (s : Source) :
    Line.IsLanguageCode (m.extend s).language := by
  have hlast : some (m.extend s).language = _ :=
    extendFrom_last (fun m => some m.language) _ language_effect s.name none s.declarations m
  cases hdeclared : (s.declarations.filterMap fun d => d.line.language?).getLast? with
  | none =>
    rw [hdeclared, Option.none_or] at hlast
    exact Option.some.inj hlast ▸ hm
  | some code =>
    rw [hdeclared, Option.some_or] at hlast
    obtain ⟨d, hd, hcode⟩ := List.mem_filterMap.1 (List.mem_of_getLast? hdeclared)
    exact Option.some.inj hlast ▸
      Line.isLanguageCode_of_language? (Source.wellNamed_of_mem_declarations hd) hcode

namespace Workspace

variable (limit : Nat) (sources : List Source)

/-- **The collections of a loaded model are called by identifiers.** -/
theorem identifiers_addAll :
    (({ limit } : Workspace).addAll sources).2.model.Every fun _ c => IsIdentifier c.name :=
  every_addAll Model.namesDistinct_empty Model.every_empty fun s _ => s.keeps_identifiers

/-- **The language of a loaded model is called by a language code.** -/
theorem isLanguageCode_addAll :
    Line.IsLanguageCode (({ limit } : Workspace).addAll sources).2.model.language := by
  have hdefault : Line.IsLanguageCode ({} : Model).language := by decide +kernel
  rw [addAll_eq]
  exact List.foldlRecOn _ _ (motive := fun m : Model => Line.IsLanguageCode m.language) hdefault
    fun m hm s _ => Model.isLanguageCode_extend hm s

end Workspace

end Utterance
