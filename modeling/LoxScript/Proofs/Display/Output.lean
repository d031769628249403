/-
  LoxScript.Proofs.Display.Output
  ────────────────────────────────
  The output of a program determines the values that it printed.

  A value of the language has one display form, no other value has the same,
  and no display form holds a line break.  So the output, a display form a
  line, is cut into its forms at the line breaks, and every form is read back
  as the value that was printed.

      "1⏎\"1\"⏎"    ⟵    print 1;  print "1";      and by no other values

  That all printed values are of the language is what scopes of language
  values promise (`isLanguage_of_printings`).
-/
import LoxScript.Proofs.Display.Program
import LoxScript.Proofs.Run.Signals

namespace LoxScript

/-! ## §1. Display forms. -/

/-- **Values of the language** with the same display form are equal. -/
theorem Value.display_inj {v w : Value} {s : String} (hv : v.IsLanguage) (hw : w.IsLanguage)
    (hvs : v.display = .ok s) (hws : w.display = .ok s) : v = w :=
  (Value.display_append_inj hv hw hvs hws isClosed_nil isClosed_nil rfl).1

/-- Display forms are read back one after another. -/
theorem values_unique {vs ws : List Value} {texts : List String} (hvs : ∀ v ∈ vs, v.IsLanguage)
    (hws : ∀ w ∈ ws, w.IsLanguage)
    (hv : List.Forall₂ (fun v text => v.display = .ok text) vs texts)
    (hw : List.Forall₂ (fun w text => w.display = .ok text) ws texts) : vs = ws := by
  induction hv generalizing ws with
  | nil =>
    cases hw
    rfl
  | cons hfirst _ ih =>
    cases hw with
    | cons hfirst' hrest' =>
      rw [List.forall_mem_cons] at hvs hws
      rw [Value.display_inj hvs.1 hws.1 hfirst hfirst', ih hvs.2 hws.2 hrest']

/-! ## §2. Printed values. -/

/-- A statement prints the value of a part of it, in the scopes it starts in. -/
theorem Stmt.isLanguage_of_printing? {s : Stmt} (hs : s.Proper) {c : Chain}
    (h : c.HoldsLanguage) {x : Printing} (hx : s.printing? c = some x) {v : Value}
    (hv : x.Has v) : v.IsLanguage := by
  cases s with
  | expression _ | declare _ _ => cases hx
  | print e =>
    obtain rfl := Option.some.inj hx
    have hsafe := (Expr.safeEvaluation_evaluate hs h).result
    rwa [hv] at hsafe

theorem isLanguage_of_printings {p : List Stmt} (hp : ∀ s ∈ p, s.Proper) {c : Chain}
    (h : c.HoldsLanguage) : ∀ x ∈ printings p c, ∀ v, x.Has v → v.IsLanguage := by
  induction p generalizing c with
  | nil => exact fun x hx => absurd hx List.not_mem_nil
  | cons s p ih =>
    obtain ⟨hs, hp⟩ := List.forall_mem_cons.1 hp
    cases hresult : (s.execute c).result with
    | error f =>
      rw [printings_cons_of_error hresult]
      exact fun x hx => absurd hx List.not_mem_nil
    | ok u =>
      rw [printings_cons_of_ok hresult, List.forall_mem_append]
      refine ⟨?_, ih hp (Stmt.safe_execute hs h).chain⟩
      intro x hx v hv
      exact Stmt.isLanguage_of_printing? hs h (Option.mem_toList.1 hx) hv

/-- **A source text** prints values of the language. -/
theorem isLanguage_of_printingsOf (source : String) {c : Chain} (h : c.HoldsLanguage) :
    ∀ x ∈ printingsOf source c, ∀ v, x.Has v → v.IsLanguage := by
  unfold printingsOf
  cases hcompile : (compile source).2 with
  | error ps => exact fun x hx => absurd hx List.not_mem_nil
  | ok p =>
    have hpair : compile source = ((compile source).1, .ok p) := Prod.ext rfl hcompile
    exact isLanguage_of_printings (proper_of_compile hpair) h

theorem isLanguage_of_forall₂ {xs : List Printing} {vs : List Value}
    (hxs : ∀ x ∈ xs, ∀ v, x.Has v → v.IsLanguage) (h : List.Forall₂ Printing.Has xs vs) :
    ∀ v ∈ vs, v.IsLanguage := by
  induction h with
  | nil => simp
  | cons hfirst _ ih =>
    rw [List.forall_mem_cons] at hxs
    exact List.forall_mem_cons.2 ⟨hxs.1 _ hfirst, ih hxs.2⟩

theorem Displays.not_mem {xs : List Printing} {texts : List String} (h : Displays xs texts)
    (hxs : ∀ x ∈ xs, ∀ v, x.Has v → v.IsLanguage) : ∀ text ∈ texts, '\n' ∉ text.toList := by
  obtain ⟨vs, hvs, htexts⟩ := h
  have hlanguage := isLanguage_of_forall₂ hxs hvs
  clear hvs
  induction htexts with
  | nil => simp
  | cons hfirst _ ih =>
    rw [List.forall_mem_cons] at hlanguage
    exact List.forall_mem_cons.2 ⟨Value.not_mem_display hlanguage.1 hfirst, ih hlanguage.2⟩

/-- Printed alike, the values are the same, one by one. -/
theorem Displays.exists_values {xs ys : List Printing} {texts : List String}
    (hx : Displays xs texts) (hy : Displays ys texts)
    (hxs : ∀ x ∈ xs, ∀ v, x.Has v → v.IsLanguage)
    (hys : ∀ y ∈ ys, ∀ v, y.Has v → v.IsLanguage) :
    ∃ vs, List.Forall₂ Printing.Has xs vs ∧ List.Forall₂ Printing.Has ys vs := by
  obtain ⟨vs, hvs, htexts⟩ := hx
  obtain ⟨ws, hws, htexts'⟩ := hy
  have heq := values_unique (isLanguage_of_forall₂ hxs hvs) (isLanguage_of_forall₂ hys hws)
    htexts htexts'
  exact ⟨vs, hvs, heq ▸ hws⟩

/-! ## §3. Output. -/

/-- What is left on the stream of a program is its texts, a line each. -/
theorem written_seenOf (texts : List String) :
    written (seenOf (· = .program) texts) = asLines texts := by
  have hline : ∀ text, written (lineSignals text) = text ++ "\n" := fun _ => String.append_empty
  show written (texts.flatMap lineSignals) = _
  induction texts with
  | nil => rfl
  | cons text texts ih =>
    have hlines : asLines (text :: texts) = text ++ "\n" ++ asLines texts := String.join_cons
    rw [List.flatMap_cons, written_append, ih, hline, hlines]

theorem exists_displays (source : String) (c : Chain) :
    ∃ texts, Displays (printingsOf source c) texts
      ∧ written (signalsOf .program (run source c).events) = asLines texts := by
  obtain ⟨texts, hdisplays, hsignals⟩ := signals_run source c
  refine ⟨texts, hdisplays, ?_⟩
  rw [signalsOf, hsignals, ← written_seenOf]
  exact congrArg written (List.append_nil _)

/-- **THE OUTPUT DETERMINES WHAT WAS PRINTED.**  Display forms are in one line
and tell values of the language apart; and two runs in scopes of such values,
if they leave the same output, have executed as many print statements, and
those have printed the same values in the same order. -/
theorem exists_values_of_written :
    (∀ v w s, v.IsLanguage → w.IsLanguage → Value.display v = .ok s → w.display = .ok s → v = w)
      ∧ (∀ v, v.IsLanguage → ∃ s, Value.display v = .ok s ∧ '\n' ∉ s.toList)
      ∧ ∀ a b c d, c.HoldsLanguage → d.HoldsLanguage →
          written (signalsOf .program (run a c).events)
            = written (signalsOf .program (run b d).events) →
          (printingsOf a c).length = (printingsOf b d).length
            ∧ ∃ vs, List.Forall₂ Printing.Has (printingsOf a c) vs
                ∧ List.Forall₂ Printing.Has (printingsOf b d) vs := by
  refine ⟨fun v w s => Value.display_inj, ?_, ?_⟩
  · intro v hv
    obtain ⟨s, hs⟩ := Value.display_isOk_of_isLanguage hv
    exact ⟨s, hs, Value.not_mem_display hv hs⟩
  · intro a b c d hc hd h
    obtain ⟨texts, ha, hwritten⟩ := exists_displays a c
    obtain ⟨texts', hb, hwritten'⟩ := exists_displays b d
    have hlanguage := isLanguage_of_printingsOf a hc
    have hlanguage' := isLanguage_of_printingsOf b hd
    rw [hwritten, hwritten'] at h
    obtain rfl := asLines_inj (ha.not_mem hlanguage) (hb.not_mem hlanguage') h
    obtain ⟨vs, hvs, hvs'⟩ := ha.exists_values hb hlanguage hlanguage'
    exact ⟨hvs.length_eq.trans hvs'.length_eq.symm, vs, hvs, hvs'⟩

/-- Two programs with the same output: the text `nil` and then the value, one
of them from an outer scope and not as it stands there. -/
theorem exists_values_of_written_assigned :
    (Value.text "nil" = .text "nil" ∧ ∃ s, (Value.text "nil").display = .ok s ∧ '\n' ∉ s.toList)
      ∧ Chain.empty.HoldsLanguage ∧ nestedScopes.HoldsLanguage
      ∧ written (signalsOf .program (run "print \"nil\"; print nil; -nil;" Chain.empty).events)
          = written (signalsOf .program
              (run "a = \"n\"; print a + \"il\"; print c;" nestedScopes).events)
      ∧ ∃ vs, List.Forall₂ Printing.Has
            (printingsOf "print \"nil\"; print nil; -nil;" Chain.empty) vs
          ∧ List.Forall₂ Printing.Has
            (printingsOf "a = \"n\"; print a + \"il\"; print c;" nestedScopes) vs := by
  have hwritten : written
        (signalsOf .program (run "print \"nil\"; print nil; -nil;" Chain.empty).events)
      = written (signalsOf .program
          (run "a = \"n\"; print a + \"il\"; print c;" nestedScopes).events) := by
    cbv
  obtain ⟨hinj, hline, houtput⟩ := exists_values_of_written
  refine ⟨⟨hinj (.text "nil") (.text "nil") (Text.displayForm "nil") trivial trivial rfl rfl,
    hline (.text "nil") trivial⟩, Chain.holdsLanguage_empty, holdsLanguage_nestedScopes,
    hwritten, ?_⟩
  exact (houtput _ _ _ _ Chain.holdsLanguage_empty holdsLanguage_nestedScopes hwritten).2

end LoxScript
