/-
  LoxScript.Proofs.Display.Literal
  ────────────────────────────────
  The display form of a value determines the value.

  There are two kinds of display form.  A text stands in quotes, and between
  them every character can be read back alone, whatever follows it
  (`readDisplayed`).  Everything else is a word: it holds none of the
  characters that a printed tree puts around it, so it ends where the first
  of them stands.

      "say \"hi\""  )  ...          100.5  )  ...
-/
import LoxScript.Value
import LoxScript.Proofs.Decimal.ReadBack

namespace LoxScript

/-! ## §1. Where a word ends. -/

/-- A list that ends at the first element with a property is told from what
follows. -/
theorem append_inj_of_forall_not {α : Type} {p : α → Prop} {l l' rest rest' : List α}
    (hl : ∀ a ∈ l, ¬ p a) (hl' : ∀ a ∈ l', ¬ p a) (hrest : ∀ a ∈ rest.head?, p a)
    (hrest' : ∀ a ∈ rest'.head?, p a) (h : l ++ rest = l' ++ rest') : l = l' ∧ rest = rest' := by
  induction l generalizing l' with
  | nil =>
    cases l' with
    | nil => exact ⟨rfl, h⟩
    | cons a l' =>
      rw [List.nil_append] at h
      subst h
      exact absurd (hrest a rfl) (hl' a List.mem_cons_self)
  | cons a l ih =>
    cases l' with
    | nil =>
      rw [List.nil_append] at h
      subst h
      exact absurd (hrest' a rfl) (hl a List.mem_cons_self)
    | cons b l' =>
      obtain ⟨rfl, htail⟩ := List.cons.inj h
      obtain ⟨rfl, rfl⟩ := ih (List.forall_mem_cons.1 hl).2 (List.forall_mem_cons.1 hl').2 htail
      exact ⟨rfl, rfl⟩

/-- The characters that end a word in a printed tree. -/
def closers : List Char := [' ', ')']

/-- The characters that no word holds. -/
def marks : List Char := '(' :: '\x22' :: '\n' :: closers

def IsWord (w : List Char) : Prop := ∀ c ∈ w, c ∉ marks

/-- A text that goes on with a closer, or not at all. -/
def IsClosed (rest : List Char) : Prop := ∀ c ∈ rest.head?, c ∈ closers

theorem isClosed_cons {c : Char} (hc : c ∈ closers) (rest : List Char) : IsClosed (c :: rest) := by
  rintro d ⟨⟩
  exact hc

theorem IsWord.not_mem_closers {w : List Char} (h : IsWord w) : ∀ c ∈ w, c ∉ closers := by
  intro c hc hclosers
  exact h c hc (List.mem_cons_of_mem _ (List.mem_cons_of_mem _ (List.mem_cons_of_mem _ hclosers)))

/-- A word in front of a closer is told from what follows. -/
theorem append_inj_of_isWord {w w' rest rest' : List Char} (hw : IsWord w) (hw' : IsWord w')
    (hrest : IsClosed rest) (hrest' : IsClosed rest') (h : w ++ rest = w' ++ rest') :
    w = w' ∧ rest = rest' :=
  append_inj_of_forall_not hw.not_mem_closers hw'.not_mem_closers hrest hrest' h

/-- A word begins with no mark. -/
theorem append_ne_cons_of_isWord {w rest : List Char} (hw : IsWord w) (hrest : IsClosed rest)
    {c : Char} (hc : c ∈ marks) (hclosers : c ∉ closers) (more : List Char) :
    w ++ rest ≠ c :: more := by
  rintro h
  cases w with
  | nil =>
    rw [List.nil_append] at h
    subst h
    exact hclosers (hrest c rfl)
  | cons d w =>
    obtain ⟨rfl, -⟩ := List.cons.inj h
    exact hw d List.mem_cons_self hc

namespace Text

/-! ## §2. Texts in quotes. -/

/-- The character below 128 with these hexadecimal digits. -/
def controlOf? (ds : List Char) : Option Char :=
  ((List.range 128).find? fun n => Nat.toDigits 16 n = ds).map Char.ofNat

/-- The first character of a text in display form, up to its closing quote,
and what follows it. -/
def readDisplayed : List Char → Option (Char × List Char)
  | [] | '\x22' :: _ => none
  | '\\' :: 'u' :: '\x7b' :: cs =>
    (controlOf? (cs.takeWhile (· ≠ '\x7d'))).map (·, (cs.dropWhile (· ≠ '\x7d')).drop 1)
  | '\\' :: 'n' :: cs => some ('\n', cs)
  | '\\' :: 'r' :: cs => some ('\r', cs)
  | '\\' :: 't' :: cs => some ('\t', cs)
  | '\\' :: '0' :: cs => some ('\x00', cs)
  | '\\' :: c :: cs => some (c, cs)
  | c :: cs => some (c, cs)

/-- Characters that are written by their code are read back. -/
theorem readDisplayed_code {c : Char} (hc : c.toNat < 128) (rest : List Char) :
    readDisplayed ('\\' :: 'u' :: '\x7b' :: Nat.toDigits 16 c.toNat ++ '\x7d' :: rest)
      = some (c, rest) := by
  -- there are few such characters, so their digits are simply tried
  have hdigits : ∀ n < 128, '\x7d' ∉ Nat.toDigits 16 n
      ∧ (List.range 128).find? (fun m => Nat.toDigits 16 m = Nat.toDigits 16 n) = some n := by
    decide +kernel
  obtain ⟨hend, hfind⟩ := hdigits c.toNat hc
  have hbody : ∀ d ∈ Nat.toDigits 16 c.toNat, decide (d ≠ '\x7d') = true := by
    intro d hd
    exact decide_eq_true (ne_of_mem_of_not_mem hd hend)
  have htake : (Nat.toDigits 16 c.toNat ++ '\x7d' :: rest).takeWhile (· ≠ '\x7d')
      = Nat.toDigits 16 c.toNat := by
    rw [List.takeWhile_append_of_pos hbody, List.takeWhile_cons_of_neg (by simp),
      List.append_nil]
  have hdrop : (Nat.toDigits 16 c.toNat ++ '\x7d' :: rest).dropWhile (· ≠ '\x7d')
      = '\x7d' :: rest := by
    rw [List.dropWhile_append_of_pos hbody, List.dropWhile_cons_of_neg (by simp)]
  show (controlOf? ((Nat.toDigits 16 c.toNat ++ '\x7d' :: rest).takeWhile (· ≠ '\x7d'))).map
    (·, ((Nat.toDigits 16 c.toNat ++ '\x7d' :: rest).dropWhile (· ≠ '\x7d')).drop 1) = _
  rw [htake, hdrop, controlOf?, hfind]
  show some (Char.ofNat c.toNat, rest) = _
  rw [Char.ofNat_toNat]

/-- **One character** of a text in display form is read back, whatever
follows it. -/
theorem readDisplayed_displayChar (c : Char) (rest : List Char) :
    readDisplayed (displayChar c ++ rest) = some (c, rest) := by
  unfold displayChar
  split_ifs with hself hbreak hreturn htab hzero hcode
  · rcases hself with rfl | rfl <;> rfl
  · rw [hbreak]; rfl
  · rw [hreturn]; rfl
  · rw [htab]; rfl
  · rw [hzero]; rfl
  · have hread := readDisplayed_code (c := c) (by omega) rest
    simpa using hread
  · obtain ⟨hquote, hslash⟩ := not_or.1 hself
    rw [List.singleton_append]
    unfold readDisplayed
    split <;> simp_all

/-- **A text in quotes** ends at the first quote that is not escaped. -/
theorem displayed_append_inj {cs ds rest rest' : List Char}
    (h : cs.flatMap displayChar ++ '\x22' :: rest = ds.flatMap displayChar ++ '\x22' :: rest') :
    cs = ds ∧ rest = rest' := by
  induction cs generalizing ds with
  | nil =>
    cases ds with
    | nil => exact ⟨rfl, (List.cons.inj h).2⟩
    | cons d ds =>
      have hread := congrArg readDisplayed h
      rw [List.flatMap_cons, List.append_assoc, readDisplayed_displayChar] at hread
      cases hread
  | cons c cs ih =>
    rw [List.flatMap_cons, List.append_assoc] at h
    have hread := congrArg readDisplayed h
    rw [readDisplayed_displayChar] at hread
    cases ds with
    | nil => cases hread
    | cons d ds =>
      rw [List.flatMap_cons, List.append_assoc, readDisplayed_displayChar] at hread
      obtain ⟨rfl, htail⟩ := Prod.mk.inj (Option.some.inj hread)
      obtain ⟨rfl, rfl⟩ := ih htail
      exact ⟨rfl, rfl⟩

theorem toList_displayForm (s : String) :
    (displayForm s).toList = '\x22' :: (s.toList.flatMap displayChar ++ ['\x22']) :=
  String.toList_ofList

/-- A line break is escaped. -/
theorem not_mem_displayChar (c : Char) : '\n' ∉ displayChar c := by
  unfold displayChar
  split_ifs with hself hbreak hreturn htab hzero hcode
  · rcases hself with rfl | rfl <;> decide
  · decide
  · decide
  · decide
  · decide
  · have hdigits : '\n' ∉ Nat.toDigits 16 c.toNat :=
      fun hmem => forall_mem_toDigits (p := (· ≠ '\n')) (by decide) _ _ hmem rfl
    simpa using hdigits
  · simpa [eq_comm] using hbreak

theorem not_mem_displayForm (s : String) : '\n' ∉ (displayForm s).toList := by
  have hbody : '\n' ∉ s.toList.flatMap displayChar := by
    rw [List.mem_flatMap]
    rintro ⟨c, -, hc⟩
    exact not_mem_displayChar c hc
  simpa [toList_displayForm] using hbody

end Text

/-! ## §3. Words. -/

theorem mem_displayNumber {x : Float} {c : Char} (hc : c ∈ (Decimal.displayNumber x).toList) :
    c.isDigit ∨ c ∈ ['-', '.', 'N', 'a', 'i', 'n', 'f'] := by
  cases hx : Decimal.isUndefined x with
  | true =>
    rw [show Decimal.displayNumber x = "NaN" from if_pos hx] at hc
    have hnan : c ∈ ['N', 'a', 'N'] := hc
    right
    simp only [List.mem_cons, List.not_mem_nil, or_false] at hnan ⊢
    tauto
  | false =>
    rw [Decimal.toList_displayNumber hx, List.mem_append] at hc
    rcases hc with hc | hc
    · unfold Decimal.sign at hc
      split at hc
      · exact .inr (List.mem_cons.2 (.inl (List.mem_singleton.1 hc)))
      · cases hc
    · rcases Decimal.mem_unsignedText hc with h | rfl | ⟨-, h⟩
      · exact .inl h
      · exact .inr (by simp)
      · right
        simp only [List.mem_cons, List.not_mem_nil, or_false] at h ⊢
        tauto

theorem isWord_of_all {w : List Char} (h : w.all (fun c => !marks.contains c) = true) :
    IsWord w := by
  intro c hc
  have hno := List.all_eq_true.1 h c hc
  simpa using hno

theorem isWord_displayNumber (x : Float) : IsWord (Decimal.displayNumber x).toList := by
  have hmarks : marks.all (fun m => !m.isDigit
      && !(['-', '.', 'N', 'a', 'i', 'n', 'f'].contains m)) = true := by decide
  intro c hc hm
  have hno := List.all_eq_true.1 hmarks c hm
  rcases mem_displayNumber hc with h | h <;> simp [h] at hno

/-- The display form of a value that is no text is a word. -/
theorem Value.display_cases {v : Value} {s : String} (hv : v.IsLanguage)
    (hs : v.display = .ok s) :
    (∃ t, v = .text t ∧ s = Text.displayForm t) ∨ IsWord s.toList ∧ ∀ t, v ≠ .text t := by
  cases v with
  | nil =>
    cases hs
    exact .inr ⟨isWord_of_all (by decide), nofun⟩
  | truth b =>
    cases b <;> cases hs <;> exact .inr ⟨isWord_of_all (by decide), nofun⟩
  | number x =>
    cases hs
    exact .inr ⟨isWord_displayNumber x, nofun⟩
  | text t =>
    cases hs
    exact .inl ⟨t, rfl, rfl⟩
  | name _ | integer _ => exact hv.elim

/-- No number is written as a constant. -/
theorem displayNumber_ne {x : Float} {s : String} (hs : s = "nil" ∨ s = "true" ∨ s = "false") :
    Decimal.displayNumber x ≠ s := by
  have hno : ∀ c ∈ (Decimal.displayNumber x).toList, c ≠ 'l' ∧ c ≠ 't' := by
    intro c hc
    rcases mem_displayNumber hc with h | h
    · constructor <;> rintro rfl <;> cases h
    · constructor <;> rintro rfl <;> simp at h
  rintro rfl
  rcases hs with heq | heq | heq <;> rw [heq] at hno
  · exact (hno 'l' (by simp)).1 rfl
  · exact (hno 't' (by simp)).2 rfl
  · exact (hno 'l' (by simp)).1 rfl

/-! ## §4. Values. -/

/-- Values that are no texts have different words. -/
theorem Value.eq_of_display {v w : Value} {s : String} (hv : v.IsLanguage) (hw : w.IsLanguage)
    (hvt : ∀ t, v ≠ .text t) (hwt : ∀ t, w ≠ .text t) (hvs : v.display = .ok s)
    (hws : w.display = .ok s) : v = w := by
  -- a constant has one value, and no number is written like it
  have hnumber : ∀ (x : Float) (u : Value), Decimal.displayNumber x = s → u.display = .ok s →
      u.IsLanguage → (∀ t, u ≠ .text t) → u = .number x := by
    intro x u hx hu hlang htext
    cases u with
    | nil =>
      cases hu
      exact absurd hx (displayNumber_ne (.inl rfl))
    | truth b =>
      cases b <;> cases hu
      · exact absurd hx (displayNumber_ne (.inr (.inr rfl)))
      · exact absurd hx (displayNumber_ne (.inr (.inl rfl)))
    | number y =>
      rw [Decimal.displayNumber_injective (hx.trans (Except.ok.inj hu).symm)]
    | text t => exact absurd rfl (htext t)
    | name _ | integer _ => exact hlang.elim
  cases v with
  | number x => exact (hnumber x w (Except.ok.inj hvs) hws hw hwt).symm
  | nil =>
    cases hvs
    cases w with
    | nil => rfl
    | truth b => cases b <;> exact absurd (Except.ok.inj hws) (by decide)
    | number y => exact absurd (Except.ok.inj hws) (displayNumber_ne (.inl rfl))
    | text t => exact absurd rfl (hwt t)
    | name _ | integer _ => exact hw.elim
  | truth b =>
    cases w with
    | nil => cases b <;> cases hvs <;> exact absurd (Except.ok.inj hws) (by decide)
    | truth b' =>
      cases b <;> cases b' <;> cases hvs <;>
        first | rfl | exact absurd (Except.ok.inj hws) (by decide)
    | number y => exact hnumber y _ (Except.ok.inj hws) hvs hv hvt
    | text t => exact absurd rfl (hwt t)
    | name _ | integer _ => exact hw.elim
  | text t => exact absurd rfl (hvt t)
  | name _ | integer _ => exact hv.elim

/-- **THE DISPLAY FORM OF A VALUE DETERMINES IT**, in front of whatever a
printed tree puts behind it. -/
theorem Value.display_append_inj {v w : Value} {s t : String} {rest rest' : List Char}
    (hv : v.IsLanguage) (hw : w.IsLanguage) (hs : v.display = .ok s) (ht : w.display = .ok t)
    (hrest : IsClosed rest) (hrest' : IsClosed rest')
    (h : s.toList ++ rest = t.toList ++ rest') : v = w ∧ rest = rest' := by
  have hquote : '\x22' ∈ marks ∧ '\x22' ∉ closers := by simp [marks, closers]
  -- a text begins with a quote and a word does not, so both are of one sort
  rcases Value.display_cases hv hs with ⟨a, rfl, rfl⟩ | ⟨hword, hvt⟩ <;>
    rcases Value.display_cases hw ht with ⟨b, rfl, rfl⟩ | ⟨hword', hwt⟩
  · rw [Text.toList_displayForm, Text.toList_displayForm, List.cons_append, List.cons_append,
      List.append_assoc, List.append_assoc] at h
    obtain ⟨hab, rfl⟩ := Text.displayed_append_inj (List.cons.inj h).2
    rw [String.toList_inj.1 hab]
    exact ⟨rfl, rfl⟩
  · rw [Text.toList_displayForm, List.cons_append] at h
    exact absurd h.symm (append_ne_cons_of_isWord hword' hrest' hquote.1 hquote.2 _)
  · rw [Text.toList_displayForm, List.cons_append] at h
    exact absurd h (append_ne_cons_of_isWord hword hrest hquote.1 hquote.2 _)
  · obtain ⟨htext, rfl⟩ := append_inj_of_isWord hword hword' hrest hrest' h
    obtain rfl := String.toList_inj.1 htext
    exact ⟨Value.eq_of_display hv hw hvt hwt hs ht, rfl⟩

/-- No display form holds a line break. -/
theorem Value.not_mem_display {v : Value} {s : String} (hv : v.IsLanguage)
    (hs : v.display = .ok s) : '\n' ∉ s.toList := by
  rcases Value.display_cases hv hs with ⟨t, -, rfl⟩ | ⟨hword, -⟩
  · exact Text.not_mem_displayForm t
  · intro hmem
    exact hword _ hmem (by simp [marks])

end LoxScript
