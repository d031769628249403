/-
  LoxScript.Proofs.Display.Controls
  ────────────────────────────────
  Quotes and control characters in display forms.

  Between its quotes the display form of a text is made of plain characters
  and of escapes, so no quote stands there but an escaped one (`IsEscaped`).
  Of the control characters, those of ASCII are escaped.  Those above it,
  U+0080 to U+009F, are not: they are shown as they stand, one by one
  (`filter_displayForm`), and a reader that breaks lines at one of them, such
  as U+0085, sees the output of one print statement as several lines.

      "a⇥b"   ⟶   "a\tb"            "a‹85›b"   ⟶   "a‹85›b"
-/
import LoxScript.Proofs.Display.Output

namespace LoxScript
namespace Text

/-! ## §1. Characters. -/

/-- The control characters of Unicode, general category Cc. -/
def isControl (c : Char) : Bool := c.toNat < 0x20 || 0x7f ≤ c.toNat && c.toNat < 0xa0

/-- The control characters above ASCII. -/
def isHighControl (c : Char) : Bool := 0x80 ≤ c.toNat && c.toNat < 0xa0

/-- Plain characters and escapes: a quote stands only where it is escaped. -/
inductive IsEscaped : List Char → Prop where
  | nil : IsEscaped []
  | plain {c : Char} {cs : List Char} : c ≠ '\x22' → c ≠ '\\' → IsEscaped cs → IsEscaped (c :: cs)
  | escape {c : Char} {cs : List Char} : IsEscaped cs → IsEscaped ('\\' :: c :: cs)

theorem IsEscaped.append {cs ds : List Char} (h : IsEscaped cs) (h' : IsEscaped ds) :
    IsEscaped (cs ++ ds) := by
  induction h with
  | nil => exact h'
  | plain hquote hslash _ ih => exact .plain hquote hslash ih
  | escape _ ih => exact .escape ih

theorem isEscaped_of_forall {cs : List Char} (h : ∀ c ∈ cs, c ≠ '\x22' ∧ c ≠ '\\') :
    IsEscaped cs := by
  induction cs with
  | nil => exact .nil
  | cons c cs ih =>
    rw [List.forall_mem_cons] at h
    exact .plain h.1.1 h.1.2 (ih h.2)

/-! ## §2. The display form of a text. -/

/-- A code is plain. -/
theorem plain_of_mem_code (n : Nat) :
    ∀ d ∈ '\x7b' :: Nat.toDigits 16 n ++ ['\x7d'],
      (d ≠ '\x22' ∧ d ≠ '\\') ∧ isControl d = false := by
  rw [List.cons_append, List.forall_mem_cons, List.forall_mem_append, List.forall_mem_singleton]
  exact ⟨by decide, forall_mem_toDigits (by decide) n, by decide⟩

/-- **One character** in display form: no quote but an escaped one, and no
control character but itself above ASCII. -/
theorem displayChar_isEscaped (c : Char) :
    IsEscaped (displayChar c) ∧ (displayChar c).filter isControl = [c].filter isHighControl := by
  unfold displayChar
  split_ifs with hself hbreak hreturn htab hzero hcode
  · rcases hself with rfl | rfl <;> exact ⟨.escape .nil, rfl⟩
  · rw [hbreak]
    exact ⟨.escape .nil, rfl⟩
  · rw [hreturn]
    exact ⟨.escape .nil, rfl⟩
  · rw [htab]
    exact ⟨.escape .nil, rfl⟩
  · rw [hzero]
    exact ⟨.escape .nil, rfl⟩
  · have hplain := plain_of_mem_code c.toNat
    have hnone : ('\\' :: 'u' :: '\x7b' :: Nat.toDigits 16 c.toNat ++ ['\x7d']).filter isControl
        = [] := by
      rw [List.filter_eq_nil_iff]
      refine List.forall_mem_cons.2 ⟨by decide, List.forall_mem_cons.2 ⟨by decide, ?_⟩⟩
      intro d hd
      rw [(hplain d hd).2]
      exact Bool.false_ne_true
    have hlow : isHighControl c = false := by
      unfold isHighControl
      rw [Bool.and_eq_false_iff, decide_eq_false_iff_not, decide_eq_false_iff_not]
      omega
    refine ⟨.escape (isEscaped_of_forall fun d hd => (hplain d hd).1), ?_⟩
    rw [hnone, List.filter_singleton, hlow]
    rfl
  · obtain ⟨hquote, hslash⟩ := not_or.1 hself
    have hsame : isControl c = isHighControl c := by
      rw [Bool.eq_iff_iff]
      unfold isControl isHighControl
      simp only [Bool.or_eq_true, Bool.and_eq_true, decide_eq_true_eq]
      omega
    refine ⟨.plain hquote hslash .nil, ?_⟩
    rw [List.filter_singleton, List.filter_singleton, hsame]

theorem isEscaped_flatMap (cs : List Char) : IsEscaped (cs.flatMap displayChar) := by
  induction cs with
  | nil => exact .nil
  | cons c cs ih => exact (displayChar_isEscaped c).1.append ih

/-- **The control characters** of a display form are those of the text above
ASCII. -/
theorem filter_displayForm (s : String) :
    (displayForm s).toList.filter isControl = s.toList.filter isHighControl := by
  have hbody : ∀ cs : List Char,
      (cs.flatMap displayChar).filter isControl = cs.filter isHighControl := by
    intro cs
    induction cs with
    | nil => rfl
    | cons c cs ih =>
      rw [List.flatMap_cons, List.filter_append, (displayChar_isEscaped c).2, ih,
        ← List.filter_append, List.singleton_append]
  have hquote : isControl '\x22' = false := by decide
  rw [toList_displayForm, List.filter_cons_of_neg (by rw [hquote]; exact Bool.false_ne_true),
    List.filter_append, hbody, List.filter_singleton, hquote]
  exact List.append_nil _

/-- A text in quotes: no other quote stands between them unescaped, and the
control characters are those of the text above ASCII. -/
structure IsQuoted (s : String) (form : List Char) : Prop where
  quotes : ∃ body, form = '\x22' :: (body ++ ['\x22']) ∧ IsEscaped body
  controls : form.filter isControl = s.toList.filter isHighControl

theorem isQuoted_displayForm (s : String) : IsQuoted s (displayForm s).toList where
  quotes := ⟨s.toList.flatMap displayChar, toList_displayForm s, isEscaped_flatMap s.toList⟩
  controls := filter_displayForm s

end Text

/-! ## §3. What is printed. -/

theorem filter_displayNumber (x : Float) :
    (Decimal.displayNumber x).toList.filter Text.isControl = [] := by
  rw [List.filter_eq_nil_iff]
  intro c hc
  rcases mem_displayNumber hc with hdigit | hletter
  · have hrange : 48 ≤ c.toNat ∧ c.toNat ≤ 57 := by
      simpa [Char.isDigit, UInt32.le_iff_toNat_le] using hdigit
    simp only [Text.isControl, Bool.or_eq_true, Bool.and_eq_true, decide_eq_true_eq]
    omega
  · have hletters : ['-', '.', 'N', 'a', 'i', 'n', 'f'].all (fun d => !Text.isControl d) := rfl
    rw [Bool.not_eq_true, ← Bool.not_eq_true']
    exact List.all_eq_true.1 hletters c hletter

/-- The control characters that the display form of a value shows. -/
def Value.shownControls : Value → List Char
  | .text s => s.toList.filter Text.isHighControl
  | .nil | .truth _ | .number _ | .name _ | .integer _ => []

theorem Value.filter_display {v : Value} {s : String} (hv : v.IsLanguage)
    (hs : v.display = .ok s) : s.toList.filter Text.isControl = v.shownControls := by
  cases v with
  | nil =>
    cases hs
    rfl
  | truth b => cases b <;> cases hs <;> rfl
  | number x =>
    cases hs
    exact filter_displayNumber x
  | text t =>
    cases hs
    exact Text.filter_displayForm t
  | name _ | integer _ => exact hv.elim

/-- **QUOTES AND CONTROL CHARACTERS.**  A text is displayed in quotes, with no
other quote between them but escaped ones.  The lines that a source text
prints hold those control characters that the printed texts have above ASCII,
in their order, and no others but the line break at the end of each line. -/
theorem exists_shownControls (source : String) {c : Chain} (h : c.HoldsLanguage) :
    (∀ s, Text.IsQuoted s (Text.displayForm s).toList)
      ∧ ∃ vs texts, List.Forall₂ Printing.Has (printingsOf source c) vs
        ∧ List.Forall₂ (fun v text => Value.display v = .ok text
            ∧ text.toList.filter Text.isControl = v.shownControls) vs texts
        ∧ written (signalsOf .program (run source c).events) = asLines texts := by
  refine ⟨Text.isQuoted_displayForm, ?_⟩
  obtain ⟨texts, ⟨vs, hvs, htexts⟩, hwritten⟩ := exists_displays source c
  have hlanguage := isLanguage_of_forall₂ (isLanguage_of_printingsOf source h) hvs
  have hboth := (List.forall₂_and_left vs texts).2 ⟨hlanguage, htexts⟩
  refine ⟨vs, texts, hvs, hboth.imp ?_, hwritten⟩
  rintro v text ⟨hv, htext⟩
  exact ⟨htext, Value.filter_display hv htext⟩

/-- A tab is escaped and U+0085 is not. -/
theorem exists_shownControls_mixed :
    Chain.empty.HoldsLanguage
      ∧ written (signalsOf .program (run "print \"\t\u0085\";" Chain.empty).events)
          = "\"\\t\u0085\"\n"
      ∧ ∃ vs texts, List.Forall₂ Printing.Has (printingsOf "print \"\t\u0085\";" Chain.empty) vs
        ∧ List.Forall₂ (fun v text => Value.display v = .ok text
            ∧ text.toList.filter Text.isControl = v.shownControls) vs texts
        ∧ written (signalsOf .program (run "print \"\t\u0085\";" Chain.empty).events)
            = asLines texts := by
  have hwritten : written (signalsOf .program (run "print \"\t\u0085\";" Chain.empty).events)
      = "\"\\t\u0085\"\n" := by
    cbv
  exact ⟨Chain.holdsLanguage_empty, hwritten,
    (exists_shownControls "print \"\t\u0085\";" Chain.holdsLanguage_empty).2⟩

/-- U+0085 is a control character, and it is shown as it stands. -/
theorem isControl_of_mem_displayForm :
    ¬ ∀ s, ∀ c ∈ (Text.displayForm s).toList, Text.isControl c = false := by
  intro h
  exact absurd (h "\u0085" '\u0085' (by decide)) (by decide)

end LoxScript
