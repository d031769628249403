/-
  LoxScript.Proofs.Display.Program
  ────────────────────────────────
  The printed program determines the program.

  A statement is a node like an expression, and its head says what it is.
  The parts are read back one after another, so two statements that are
  printed alike differ in the lines of their tokens alone.

  No printed form holds a line break: names and operators never do, and
  between quotes it is escaped.  So one form a line is enough to tell where
  a form ends, and the output of the `ast` command determines the program
  as well as the list of its forms does.
-/
import LoxScript.Command.Invocation
import LoxScript.Proofs.Display.Tree
import LoxScript.Proofs.Run.Joined

namespace LoxScript

/-! ## §1. Line breaks. -/

theorem IsWord.not_mem_break {w : List Char} (h : IsWord w) : '\n' ∉ w := by
  intro hmem
  exact h _ hmem (by simp [marks])

/-- A node holds a line break only in its body. -/
theorem not_mem_node {head body : List Char} (hw : IsWord head) (hbody : '\n' ∉ body) :
    '\n' ∉ node head body := by
  simp [node, hbody, hw.not_mem_break]

theorem Expr.Prints.not_mem {e : Expr} {cs : List Char} (h : e.Prints cs) : '\n' ∉ cs := by
  obtain ⟨hgroup, hvar, hassign⟩ := isWord_heads
  induction h with
  | literal hv hs => exact Value.not_mem_display hv hs
  | paren _ ih => exact not_mem_node hgroup ih
  | unary ht hk _ ih => exact not_mem_node (isWord_of_operatorChars (ht.operator hk)) ih
  | binary ht hk _ _ ihl ihr =>
    exact not_mem_node (isWord_of_operatorChars (ht.operator hk)) (by simp [ihl, ihr])
  | name ht hk => exact not_mem_node hvar (ht.name hk).not_mem_break
  | assign ht hk _ ih => exact not_mem_node hassign (by simp [(ht.name hk).not_mem_break, ih])

/-! ## §2. Printed statements. -/

def exprHead : List Char := ['e', 'x', 'p', 'r']
def printHead : List Char := ['p', 'r', 'i', 'n', 't']

/-- The printed form of a statement over scanned tokens. -/
inductive Stmt.Prints : Stmt → List Char → Prop where
  | expression {e : Expr} {cs : List Char} :
      e.Prints cs → Prints (.expression e) (node exprHead cs)
  | print {e : Expr} {cs : List Char} : e.Prints cs → Prints (.print e) (node printHead cs)
  | declare {t : Token} :
      t.IsScanned → t.kind = .identifier →
      Prints (.declare t none) (node varHead t.lexeme.toList)
  | declareWith {t : Token} {e : Expr} {cs : List Char} :
      t.IsScanned → t.kind = .identifier → e.Prints cs →
      Prints (.declare t (some e)) (node varHead (t.lexeme.toList ++ ' ' :: '=' :: ' ' :: cs))

/-- A statement over scanned tokens has a printed form. -/
theorem Stmt.Spells.exists_prints {s : Stmt} {ts : List Token} (h : s.Spells ts) (hs : s.Shaped)
    (hts : ∀ t ∈ ts, t.IsScanned) : ∃ l, s.display = .ok l ∧ s.Prints l.toList := by
  cases h with
  | expression _ he =>
    obtain ⟨l, hd, hp⟩ := he.exists_prints hs (List.forall_mem_append.1 hts).1
    refine ⟨_, by rw [Stmt.display, hd]; rfl, ?_⟩
    simpa [node, exprHead] using Stmt.Prints.expression hp
  | print _ _ he =>
    simp only [List.cons_append, List.forall_mem_cons, List.forall_mem_append] at hts
    obtain ⟨l, hd, hp⟩ := he.exists_prints hs hts.2.1
    refine ⟨_, by rw [Stmt.display, hd]; rfl, ?_⟩
    simpa [node, printHead] using Stmt.Prints.print hp
  | declare _ hk _ =>
    simp only [List.forall_mem_cons] at hts
    refine ⟨_, rfl, ?_⟩
    simpa [node, varHead] using Stmt.Prints.declare hts.2.1 hk
  | declareWith _ hk _ _ he =>
    simp only [List.cons_append, List.forall_mem_cons, List.forall_mem_append] at hts
    obtain ⟨l, hd, hp⟩ := he.exists_prints hs hts.2.2.2.1
    refine ⟨_, by rw [Stmt.display, hd]; rfl, ?_⟩
    simpa [node, varHead] using Stmt.Prints.declareWith hts.2.1 hk hp

/-- The head of the node that a statement is printed as. -/
def Stmt.head : Stmt → List Char
  | .expression _ => exprHead
  | .print _ => printHead
  | .declare _ _ => varHead

theorem Stmt.isWord_head (s : Stmt) : IsWord s.head := by
  cases s with
  | expression _ => exact isWord_of_all (show exprHead.all _ = true by decide)
  | print _ => exact isWord_of_all (show printHead.all _ = true by decide)
  | declare _ _ => exact isWord_heads.2.1

/-- A printed statement is a node with its head. -/
theorem Stmt.Prints.exists_body {s : Stmt} {cs : List Char} (h : s.Prints cs) :
    ∃ body, '\n' ∉ body ∧ cs = node s.head body := by
  cases h with
  | expression he | print he => exact ⟨_, he.not_mem, rfl⟩
  | declare ht hk => exact ⟨_, (ht.name hk).not_mem_break, rfl⟩
  | declareWith ht hk he =>
    exact ⟨_, by simp [(ht.name hk).not_mem_break, he.not_mem], rfl⟩

theorem Stmt.Prints.not_mem {s : Stmt} {cs : List Char} (h : s.Prints cs) : '\n' ∉ cs := by
  obtain ⟨body, hbody, rfl⟩ := h.exists_body
  exact not_mem_node s.isWord_head hbody

/-- **Statements** that are printed alike differ in the lines of their tokens
alone. -/
theorem Stmt.Prints.inj {s s' : Stmt} {cs cs' : List Char} (h : s.Prints cs)
    (h' : s'.Prints cs') (heq : cs = cs') : s.mapLine nowhere = s'.mapLine nowhere := by
  have hnode : ∀ {body body' : List Char}, node s.head body = node s'.head body' →
      s.head = s'.head ∧ body = body' := node_inj s.isWord_head s'.isWord_head
  cases h with
  | expression he =>
    cases h' with
    | expression he' =>
      obtain ⟨-, rfl⟩ := hnode heq
      rw [Stmt.mapLine, Stmt.mapLine, he.inj he']
    | print _ | declare _ _ | declareWith _ _ _ => cases (hnode heq).1
  | print he =>
    cases h' with
    | print he' =>
      obtain ⟨-, rfl⟩ := hnode heq
      rw [Stmt.mapLine, Stmt.mapLine, he.inj he']
    | expression _ | declare _ _ | declareWith _ _ _ => cases (hnode heq).1
  | declare ht hk =>
    cases h' with
    | expression _ | print _ => cases (hnode heq).1
    | declare ht' hk' =>
      rw [Stmt.mapLine, Stmt.mapLine, ht.mapLine_eq ht' (hnode heq).2]
    | declareWith ht' hk' _ =>
      -- a name is a word, and what follows it in the other body begins with a space
      have hbody := (List.append_nil _).trans (hnode heq).2
      cases (append_inj_of_isWord (ht.name hk) (ht'.name hk') isClosed_nil (isClosed_space _)
        hbody).2
  | declareWith ht hk he =>
    cases h' with
    | expression _ | print _ => cases (hnode heq).1
    | declare ht' hk' =>
      have hbody := (hnode heq).2.trans (List.append_nil _).symm
      cases (append_inj_of_isWord (ht.name hk) (ht'.name hk') (isClosed_space _) isClosed_nil
        hbody).2
    | declareWith ht' hk' he' =>
      obtain ⟨hname, hrest⟩ := append_inj_of_isWord (ht.name hk) (ht'.name hk')
        (isClosed_space _) (isClosed_space _) (hnode heq).2
      simp only [List.cons.injEq, true_and] at hrest
      subst hrest
      rw [Stmt.mapLine, Stmt.mapLine, ht.mapLine_eq ht' hname, Option.map_some, Option.map_some,
        he.inj he']

/-! ## §3. Printed programs. -/

/-- The printed forms of the statements of a program. -/
def PrintsAll (p : List Stmt) (ls : List String) : Prop :=
  List.Forall₂ (fun s l => s.Prints l.toList) p ls

theorem SpellsAll.exists_printsAll {p : List Stmt} {ts : List Token} (h : SpellsAll p ts)
    (hp : ∀ s ∈ p, s.Shaped) (hts : ∀ t ∈ ts, t.IsScanned) :
    ∃ ls, displayAll p = .ok ls ∧ PrintsAll p ls := by
  induction h with
  | nil => exact ⟨[], rfl, .nil⟩
  | cons hspells _ ih =>
    rw [List.forall_mem_cons] at hp
    rw [List.forall_mem_append] at hts
    obtain ⟨l, hl, hprints⟩ := hspells.exists_prints hp.1 hts.1
    obtain ⟨ls, hls, hrest⟩ := ih hp.2 hts.2
    refine ⟨l :: ls, ?_, .cons hprints hrest⟩
    unfold displayAll at hls ⊢
    rw [List.mapM_cons, hl, hls]
    rfl

/-- The program of a source text has a printed form. -/
theorem exists_printsAll_of_compile {source : String} {p : List Stmt}
    (h : (compile source).2 = .ok p) : ∃ ls, displayAll p = .ok ls ∧ PrintsAll p ls := by
  obtain ⟨hstop, hprogram⟩ := (compile_eq_ok_iff source p).1 h
  exact hprogram.spells.exists_printsAll hprogram.shaped
    (partition_of_cut source.toList hstop 1).isLexeme

theorem PrintsAll.inj {p q : List Stmt} {ls : List String} (hp : PrintsAll p ls)
    (hq : PrintsAll q ls) : p.map (Stmt.mapLine nowhere) = q.map (Stmt.mapLine nowhere) := by
  unfold PrintsAll at hp
  induction hp generalizing q with
  | nil =>
    cases hq
    rfl
  | cons hs _ ih =>
    cases hq with
    | cons hs' hrest => rw [List.map_cons, List.map_cons, hs.inj hs' rfl, ih hrest]

theorem PrintsAll.not_mem {p : List Stmt} {ls : List String} (h : PrintsAll p ls) :
    ∀ l ∈ ls, '\n' ∉ l.toList := by
  unfold PrintsAll at h
  induction h with
  | nil => simp
  | cons hs _ ih => exact List.forall_mem_cons.2 ⟨hs.not_mem, ih⟩

/-! ## §4. One form a line. -/

/-- Texts without line breaks, a line each. -/
def asLines (ls : List String) : String := String.join (ls.map (· ++ "\n"))

/-- Lines are read back. -/
theorem asLines_inj {ls ms : List String} (hls : ∀ l ∈ ls, '\n' ∉ l.toList)
    (hms : ∀ l ∈ ms, '\n' ∉ l.toList) (h : asLines ls = asLines ms) : ls = ms := by
  have hcons : ∀ l ls, (asLines (l :: ls)).toList = l.toList ++ '\n' :: (asLines ls).toList := by
    intro l ls
    simp [asLines]
  induction ls generalizing ms with
  | nil =>
    cases ms with
    | nil => rfl
    | cons m ms =>
      have htext := congrArg String.toList h
      rw [hcons] at htext
      exact absurd htext.symm (by simp [asLines])
  | cons l ls ih =>
    cases ms with
    | nil =>
      have htext := congrArg String.toList h
      rw [hcons] at htext
      exact absurd htext (by simp [asLines])
    | cons m ms =>
      rw [List.forall_mem_cons] at hls hms
      have htext := congrArg String.toList h
      rw [hcons, hcons] at htext
      -- no line holds a break, so the first break ends the first line
      have hbreak : ∀ rest : List Char, ∀ c ∈ ('\n' :: rest).head?, c = '\n' := by simp
      obtain ⟨hfirst, hrest⟩ := append_inj_of_forall_not (p := (· = '\n'))
        (fun c hc hn => hls.1 (hn ▸ hc)) (fun c hc hn => hms.1 (hn ▸ hc)) (hbreak _) (hbreak _)
        htext
      rw [String.toList_inj.1 hfirst,
        ih hls.2 hms.2 (String.toList_inj.1 (List.cons.inj hrest).2)]

namespace Command

/-- Scanning and reading write nothing to standard output. -/
theorem stdoutText_compile (source : String) :
    ∀ e ∈ (compile source).1, stdoutText e = "" := by
  unfold compile
  cases tokensOf source with
  | error e => simp
  | ok tokens =>
    dsimp only
    cases programOf tokens with
    | error es => simp [stdoutText]
    | ok p => simp [stdoutText]

/-- The `ast` command writes the printed forms, a line each. -/
theorem stdout_printScript {source : String} {p : List Stmt} {ls : List String}
    (h : (compile source).2 = .ok p) (hls : displayAll p = .ok ls) (verbosity : Nat) :
    (printScript verbosity source).stdout = asLines ls := by
  have hquiet := stdoutText_compile source
  unfold printScript
  generalize compile source = compiled at h hquiet
  obtain ⟨events, result⟩ := compiled
  obtain rfl : result = .ok p := h
  -- what is noticed before the forms leaves no text
  have hevents : events.map stdoutText = List.replicate events.length "" :=
    List.map_eq_replicate_iff.2 hquiet
  simp only [hls]
  show String.join ((events ++ ls.map _).map stdoutText) = _
  rw [List.map_append, String.join_append, hevents, List.map_map]
  have hnone : ∀ n : Nat, String.join (List.replicate n "") = "" := by
    intro n
    apply String.toList_inj.1
    simp
  rw [hnone, String.empty_append]
  rfl

end Command

/-- **THE PRINTED PROGRAM DETERMINES THE PROGRAM.**  Two source texts whose
statements are printed alike, as a list or a line each, are programs that
differ in the lines of their tokens alone. -/
theorem displayAll_determines {a b : String} {p q : List Stmt} (ha : (compile a).2 = .ok p)
    (hb : (compile b).2 = .ok q) :
    ∃ ls ms, displayAll p = .ok ls ∧ displayAll q = .ok ms
      ∧ (∀ l ∈ ls, '\n' ∉ l.toList)
      ∧ (ls = ms → p.map (Stmt.mapLine nowhere) = q.map (Stmt.mapLine nowhere))
      ∧ (∀ v, (Command.printScript v a).stdout = String.join (ls.map (· ++ "\n")))
      ∧ ∀ v w, (Command.printScript v a).stdout = (Command.printScript w b).stdout →
          p.map (Stmt.mapLine nowhere) = q.map (Stmt.mapLine nowhere) := by
  obtain ⟨ls, hls, hprints⟩ := exists_printsAll_of_compile ha
  obtain ⟨ms, hms, hprints'⟩ := exists_printsAll_of_compile hb
  refine ⟨ls, ms, hls, hms, hprints.not_mem, ?_, Command.stdout_printScript ha hls, ?_⟩
  · rintro rfl
    exact hprints.inj hprints'
  · intro v w h
    rw [Command.stdout_printScript ha hls, Command.stdout_printScript hb hms] at h
    obtain rfl := asLines_inj hprints.not_mem hprints'.not_mem h
    exact hprints.inj hprints'

/-- A declaration, and on some line a difference.  The text looks like the end
of a statement, and `-` stands for two operators. -/
def relaidProgram (line : Int) : List Stmt :=
  let a := Expr.name ⟨.identifier, "a", .name "a", line⟩
  let minus : Token := ⟨.minus, "-", .nil, line⟩
  [.declare ⟨.identifier, "a", .name "a", 1⟩ (some (.literal (.text "b)"))),
   .expression (.binary a minus (.unary minus a))]

theorem displayAll_determines_relaid :
    (compile "var a=\"b)\";a - -a;").2 = .ok (relaidProgram 1)
      ∧ (compile "var a = \"b)\"; // c\na--a;").2 = .ok (relaidProgram 2)
      ∧ (∀ v, (Command.printScript v "var a=\"b)\";a - -a;").stdout
          = "(var a = \"b)\")\n(expr (- (var a) (- (var a))))\n")
      ∧ (relaidProgram 1).map (Stmt.mapLine nowhere)
          = (relaidProgram 2).map (Stmt.mapLine nowhere) := by
  have ha : (compile "var a=\"b)\";a - -a;").2 = .ok (relaidProgram 1) := by cbv
  have hb : (compile "var a = \"b)\"; // c\na--a;").2 = .ok (relaidProgram 2) := by cbv
  have hforms : ∀ line, displayAll (relaidProgram line)
      = .ok ["(var a = \"b)\")", "(expr (- (var a) (- (var a))))"] := by
    intro line
    cbv
  obtain ⟨ls, ms, hls, hms, -, hinj, hstdout, -⟩ := displayAll_determines ha hb
  obtain rfl := Except.ok.inj ((hforms 1).symm.trans hls)
  obtain rfl := Except.ok.inj ((hforms 2).symm.trans hms)
  exact ⟨ha, hb, fun v => (hstdout v).trans (by decide), hinj rfl⟩

end LoxScript
