/-
  LoxScript.Proofs.Display.Tree
  ────────────────────────────────
  The printed form of a program determines the program.

  Every tree but a literal is printed as a node: a parenthesis, a head that
  says what the tree is, and its parts, all told apart by spaces.

      ( head part ... part )

  A head is a word, so two equal texts have the same head, and the head says
  what the tree is and how its parts follow each other.  By induction every
  part is the same tree.  One head says two things: behind `-` there are one
  or two parts.  What follows the first part decides, a parenthesis or a
  space.

  The lines of the tokens are not printed, and nothing else is missing:
  kinds and literals of scanned tokens are those of their lexemes.
-/
import LoxScript.Proofs.Display.Literal
import LoxScript.Proofs.Lines
import LoxScript.Proofs.Run.Safety
import LoxScript.Proofs.Scan.Layout

namespace LoxScript

/-! ## §1. Scanned tokens. -/

/-- Lexeme, kind and literal belong together as they do in a scanned text. -/
def Token.IsScanned (t : Token) : Prop := IsLexeme t.lexeme.toList t.kind t.literal

/-- A lexeme is of one kind, with one literal. -/
theorem IsLexeme.unique {l : List Char} {k k' : Kind} {v v' : Value} (h : IsLexeme l k v)
    (h' : IsLexeme l k' v') : k = k' ∧ v = v' := by
  -- a lexeme is cut in one way
  have hcut : cut (l ++ []) = _ := cut_lexeme_append h (by simp)
  have hcut' : cut (l ++ []) = _ := cut_lexeme_append h' (by simp)
  rw [hcut'] at hcut
  obtain ⟨hpiece, -⟩ := List.cons.inj (Cutting.mk.inj hcut).1
  obtain ⟨rfl, -⟩ := Piece.lexeme.inj hpiece
  exact ⟨rfl, h.literal_eq.trans h'.literal_eq.symm⟩

/-- Scanned tokens with the same lexeme differ in their lines alone. -/
theorem Token.IsScanned.mapLine_eq {t u : Token} (ht : t.IsScanned) (hu : u.IsScanned)
    (h : t.lexeme.toList = u.lexeme.toList) : t.mapLine nowhere = u.mapLine nowhere := by
  unfold Token.IsScanned at ht
  rw [h] at ht
  obtain ⟨hkind, hliteral⟩ := ht.unique hu
  exact (Token.mapLine_nowhere_eq_iff t u).2 ⟨hkind, String.toList_inj.1 h, hliteral⟩

/-- The characters that operators are made of. -/
def operatorChars : List Char := ['!', '=', '<', '>', '-', '+', '*', '/']

/-- The kinds of which a token is printed as a head. -/
def Kind.isOperator (k : Kind) : Bool := k ∈ Kind.unaryOperators ∨ 0 < k.precedence

theorem Token.IsScanned.operator {t : Token} (h : t.IsScanned) (ht : t.kind.isOperator = true) :
    ∀ c ∈ t.lexeme.toList, c ∈ operatorChars := by
  -- the tables of the scanner are checked row by row
  have hsingles : Kind.singles.all (fun p => !p.2.isOperator || operatorChars.contains p.1)
      = true := by decide
  have hpairs : Kind.pairs.all (fun p => operatorChars.contains p.1) = true := by decide
  have hkeywords : Kind.keywords.all (fun p => !p.2.isOperator) = true := by decide
  have hequal : '=' ∈ operatorChars := by simp [operatorChars]
  unfold Token.IsScanned at h
  generalize t.lexeme.toList = l, t.kind = k, t.literal = v at h ht
  cases h with
  | single hm =>
    have hc := List.all_eq_true.1 hsingles _ hm
    simp only [ht, Bool.not_true, Bool.false_or] at hc
    exact List.forall_mem_singleton.2 (List.contains_iff_mem.1 hc)
  | joined hm =>
    have hc := List.all_eq_true.1 hpairs _ hm
    exact List.forall_mem_cons.2
      ⟨List.contains_iff_mem.1 hc, List.forall_mem_singleton.2 hequal⟩
  | alone hm =>
    have hc := List.all_eq_true.1 hpairs _ hm
    exact List.forall_mem_singleton.2 (List.contains_iff_mem.1 hc)
  | slash => exact List.forall_mem_singleton.2 (by simp [operatorChars])
  | keyword hm =>
    have hno := List.all_eq_true.1 hkeywords _ hm
    rw [ht] at hno
    cases hno
  | string _ | whole _ _ | fraction _ _ _ _ | name _ _ _ => cases ht

theorem isWord_of_operatorChars {w : List Char} (h : ∀ c ∈ w, c ∈ operatorChars) : IsWord w := by
  have hmarks : operatorChars.all (fun c => !marks.contains c) = true := by decide
  intro c hc
  simpa using List.all_eq_true.1 hmarks c (h c hc)

/-- A name is a word. -/
theorem Token.IsScanned.name {t : Token} (h : t.IsScanned) (ht : t.kind = .identifier) :
    IsWord t.lexeme.toList := by
  have hmarks : marks.all (fun c => !continuesWord c) = true := by decide
  unfold Token.IsScanned at h
  rw [ht] at h
  generalize t.lexeme.toList = l, t.literal = v at h
  cases h with
  | @name c cs hc hcs _ =>
    have hall : ∀ d ∈ c :: cs, continuesWord d = true := by
      rw [List.forall_mem_cons]
      exact ⟨by unfold continuesWord; rw [hc]; rfl, hcs⟩
    intro d hd hm
    have hno := List.all_eq_true.1 hmarks d hm
    rw [hall d hd] at hno
    cases hno
  | single hm => exact absurd hm (by simp [Kind.singles])
  | joined hm => exact absurd hm (by simp [Kind.pairs])
  | alone hm => exact absurd hm (by simp [Kind.pairs])
  | keyword hm => exact absurd hm (by simp [Kind.keywords])

/-! ## §2. Printed expressions. -/

/-- A head and what follows it, in parentheses. -/
def node (head body : List Char) : List Char := '(' :: (head ++ ' ' :: (body ++ [')']))

def groupHead : List Char := ['g', 'r', 'o', 'u', 'p']
def varHead : List Char := ['v', 'a', 'r']
def assignHead : List Char := ['a', 's', 's', 'i', 'g', 'n']

/-- The printed form of an expression over scanned tokens. -/
inductive Expr.Prints : Expr → List Char → Prop where
  | literal {v : Value} {s : String} :
      v.IsLanguage → v.display = .ok s → Prints (.literal v) s.toList
  | paren {e : Expr} {cs : List Char} : Prints e cs → Prints (.paren e) (node groupHead cs)
  | unary {op : Token} {e : Expr} {cs : List Char} :
      op.IsScanned → op.kind.isOperator = true → Prints e cs →
      Prints (.unary op e) (node op.lexeme.toList cs)
  | binary {op : Token} {l r : Expr} {ls rs : List Char} :
      op.IsScanned → op.kind.isOperator = true → Prints l ls → Prints r rs →
      Prints (.binary l op r) (node op.lexeme.toList (ls ++ ' ' :: rs))
  | name {t : Token} :
      t.IsScanned → t.kind = .identifier → Prints (.name t) (node varHead t.lexeme.toList)
  | assign {t : Token} {e : Expr} {cs : List Char} :
      t.IsScanned → t.kind = .identifier → Prints e cs →
      Prints (.assign t e) (node assignHead (t.lexeme.toList ++ ' ' :: '=' :: ' ' :: cs))

/-- An expression over scanned tokens has a printed form. -/
theorem Expr.Spells.exists_prints {e : Expr} {ts : List Token} (h : e.Spells ts) (hs : e.Shaped)
    (hts : ∀ t ∈ ts, t.IsScanned) : ∃ s, e.display = .ok s ∧ e.Prints s.toList := by
  induction h with
  | @literal t hk =>
    have hlang : t.literal.IsLanguage := (hts t List.mem_cons_self).isLanguage
      (ne_of_mem_of_not_mem hk (by decide))
    obtain ⟨s, hv⟩ := Value.display_isOk_of_isLanguage hlang
    exact ⟨s, hv, .literal hlang hv⟩
  | @name t hk =>
    refine ⟨_, rfl, ?_⟩
    simpa [node, varHead] using Expr.Prints.name (hts t List.mem_cons_self) hk
  | paren _ _ _ ih =>
    simp only [List.cons_append, List.forall_mem_cons, List.forall_mem_append] at hts
    obtain ⟨s, hd, hp⟩ := ih hs hts.2.1
    refine ⟨_, by rw [Expr.display, hd]; rfl, ?_⟩
    simpa [node, groupHead] using hp.paren
  | unary _ ih =>
    obtain ⟨hop, -, hshaped⟩ := hs
    rw [List.forall_mem_cons] at hts
    obtain ⟨s, hd, hp⟩ := ih hshaped hts.2
    refine ⟨_, by rw [Expr.display, hd]; rfl, ?_⟩
    simpa [node] using hp.unary hts.1 (decide_eq_true (.inl hop))
  | binary _ _ ihl ihr =>
    obtain ⟨hop, -, -, hl, hr⟩ := hs
    simp only [List.forall_mem_cons, List.forall_mem_append] at hts
    obtain ⟨s, hd, hp⟩ := ihl hl hts.1
    obtain ⟨s', hd', hp'⟩ := ihr hr hts.2.2
    refine ⟨_, by rw [Expr.display, hd, hd']; rfl, ?_⟩
    simpa [node] using hp.binary hts.2.1 (decide_eq_true (.inr hop)) hp'
  | assign hk _ _ ih =>
    simp only [List.forall_mem_cons] at hts
    obtain ⟨s, hd, hp⟩ := ih hs hts.2.2
    refine ⟨_, by rw [Expr.display, hd]; rfl, ?_⟩
    simpa [node, assignHead] using hp.assign hts.1 hk

/-! ## §3. Heads. -/

theorem isWord_heads : IsWord groupHead ∧ IsWord varHead ∧ IsWord assignHead :=
  ⟨isWord_of_all (by decide), isWord_of_all (by decide), isWord_of_all (by decide)⟩

/-- The heads of letters are no operators. -/
theorem Token.IsScanned.operator_ne {t : Token} (h : t.IsScanned)
    (ht : t.kind.isOperator = true) : t.lexeme.toList ≠ groupHead
      ∧ t.lexeme.toList ≠ varHead ∧ t.lexeme.toList ≠ assignHead := by
  have hhead : ∀ {c : Char} {cs : List Char}, t.lexeme.toList = c :: cs → c ∈ operatorChars := by
    intro c cs hcs
    exact h.operator ht c (by rw [hcs]; exact List.mem_cons_self)
  refine ⟨?_, ?_, ?_⟩ <;> intro hcs <;> simpa [operatorChars] using hhead hcs

theorem isClosed_nil : IsClosed [] := by
  rintro c ⟨⟩

theorem isClosed_paren (rest : List Char) : IsClosed (')' :: rest) :=
  isClosed_cons (by simp [closers]) rest

theorem isClosed_space (rest : List Char) : IsClosed (' ' :: rest) :=
  isClosed_cons (by simp [closers]) rest

/-- Nodes with the same text have the same head. -/
theorem node_head_inj {head head' body body' rest rest' : List Char} (hw : IsWord head)
    (hw' : IsWord head') (h : node head body ++ rest = node head' body' ++ rest') :
    head = head' := by
  have htail : head ++ ' ' :: (body ++ ')' :: rest) = head' ++ ' ' :: (body' ++ ')' :: rest') := by
    simpa [node] using h
  exact (append_inj_of_isWord hw hw' (isClosed_space _) (isClosed_space _) htail).1

theorem node_append_cancel {head body body' rest rest' : List Char}
    (h : node head body ++ rest = node head body' ++ rest') :
    body ++ ')' :: rest = body' ++ ')' :: rest' := by
  simpa [node] using h

/-- Equal nodes have the same head and the same body. -/
theorem node_inj {head head' body body' : List Char} (hw : IsWord head) (hw' : IsWord head')
    (h : node head body = node head' body') : head = head' ∧ body = body' := by
  obtain rfl := node_head_inj hw hw' (congrArg (· ++ []) h)
  exact ⟨rfl, by simpa [node] using h⟩

/-- A literal is no node. -/
theorem Value.display_append_ne_node {v : Value} {s : String} {rest : List Char}
    (hv : v.IsLanguage) (hs : v.display = .ok s) (hrest : IsClosed rest)
    (head body rest' : List Char) : s.toList ++ rest ≠ node head body ++ rest' := by
  have hparen : '(' ∈ marks ∧ '(' ∉ closers := by simp [marks, closers]
  rcases Value.display_cases hv hs with ⟨t, -, rfl⟩ | ⟨hword, -⟩
  · rw [Text.toList_displayForm]
    intro h
    exact absurd (List.cons.inj h).1 (by decide)
  · exact append_ne_cons_of_isWord hword hrest hparen.1 hparen.2 _

/-- The head of the node that an expression is printed as. -/
def Expr.head? : Expr → Option (List Char)
  | .literal _ => none
  | .paren _ => some groupHead
  | .unary op _ | .binary _ op _ => some op.lexeme.toList
  | .name _ => some varHead
  | .assign _ _ => some assignHead

/-- A printed expression is a literal or a node with its head. -/
theorem Expr.Prints.cases_head {e : Expr} {cs : List Char} (h : e.Prints cs) :
    (e.head? = none ∧ ∃ v s, Value.IsLanguage v ∧ v.display = .ok s ∧ cs = s.toList)
      ∨ ∃ head body, e.head? = some head ∧ IsWord head ∧ cs = node head body := by
  obtain ⟨hgroup, hvar, hassign⟩ := isWord_heads
  cases h with
  | literal hv hs => exact .inl ⟨rfl, _, _, hv, hs, rfl⟩
  | paren _ => exact .inr ⟨_, _, rfl, hgroup, rfl⟩
  | unary ht hop _ | binary ht hop _ _ =>
    exact .inr ⟨_, _, rfl, isWord_of_operatorChars (ht.operator hop), rfl⟩
  | name _ _ => exact .inr ⟨_, _, rfl, hvar, rfl⟩
  | assign _ _ _ => exact .inr ⟨_, _, rfl, hassign, rfl⟩

/-- **Heads.**  Texts that begin alike begin with the same head. -/
theorem Expr.Prints.head?_eq {e e' : Expr} {cs cs' rest rest' : List Char} (h : e.Prints cs)
    (h' : e'.Prints cs') (hrest : IsClosed rest) (hrest' : IsClosed rest')
    (heq : cs ++ rest = cs' ++ rest') : e'.head? = e.head? := by
  rcases h.cases_head with ⟨hnone, v, s, hv, hs, rfl⟩ | ⟨head, body, hhead, hw, rfl⟩ <;>
    rcases h'.cases_head with ⟨hnone', w, t, hw', ht, rfl⟩ | ⟨head', body', hhead', hw', rfl⟩
  · rw [hnone, hnone']
  · exact absurd heq (Value.display_append_ne_node hv hs hrest _ _ _)
  · exact absurd heq.symm (Value.display_append_ne_node hw' ht hrest' _ _ _)
  · rw [hhead, hhead', node_head_inj hw hw' heq]

/-! ## §4. What a head means. -/

section

variable {e : Expr} {cs : List Char}

theorem Expr.Prints.of_no_head (h : e.Prints cs) (hhead : e.head? = none) :
    ∃ v s, e = .literal v ∧ v.IsLanguage ∧ v.display = .ok s ∧ cs = s.toList := by
  cases h with
  | literal hv hs => exact ⟨_, _, rfl, hv, hs, rfl⟩
  | paren _ | unary _ _ _ | binary _ _ _ _ | name _ _ | assign _ _ _ => cases hhead

theorem Expr.Prints.of_groupHead (h : e.Prints cs) (hhead : e.head? = some groupHead) :
    ∃ e' cs', e = .paren e' ∧ e'.Prints cs' ∧ cs = node groupHead cs' := by
  cases h with
  | paren h => exact ⟨_, _, rfl, h, rfl⟩
  | unary ht hop _ | binary ht hop _ _ =>
    exact absurd (Option.some.inj hhead) (ht.operator_ne hop).1
  | literal _ _ | name _ _ | assign _ _ _ => cases hhead

theorem Expr.Prints.of_varHead (h : e.Prints cs) (hhead : e.head? = some varHead) :
    ∃ t, e = .name t ∧ t.IsScanned ∧ t.kind = .identifier
      ∧ cs = node varHead t.lexeme.toList := by
  cases h with
  | name ht hk => exact ⟨_, rfl, ht, hk, rfl⟩
  | unary ht hop _ | binary ht hop _ _ =>
    exact absurd (Option.some.inj hhead) (ht.operator_ne hop).2.1
  | literal _ _ | paren _ | assign _ _ _ => cases hhead

theorem Expr.Prints.of_assignHead (h : e.Prints cs) (hhead : e.head? = some assignHead) :
    ∃ t e' cs', e = .assign t e' ∧ t.IsScanned ∧ t.kind = .identifier ∧ e'.Prints cs'
      ∧ cs = node assignHead (t.lexeme.toList ++ ' ' :: '=' :: ' ' :: cs') := by
  cases h with
  | assign ht hk h => exact ⟨_, _, _, rfl, ht, hk, h, rfl⟩
  | unary ht hop _ | binary ht hop _ _ =>
    exact absurd (Option.some.inj hhead) (ht.operator_ne hop).2.2
  | literal _ _ | paren _ | name _ _ => cases hhead

/-- One operator is the head of two kinds of nodes. -/
theorem Expr.Prints.of_operator (h : e.Prints cs) {op : Token} (hop : op.IsScanned)
    (hk : op.kind.isOperator = true) (hhead : e.head? = some op.lexeme.toList) :
    ∃ op' : Token, op'.mapLine nowhere = op.mapLine nowhere
      ∧ ((∃ e' cs', e = .unary op' e' ∧ e'.Prints cs' ∧ cs = node op.lexeme.toList cs')
        ∨ ∃ l r ls rs, e = .binary l op' r ∧ l.Prints ls ∧ r.Prints rs
          ∧ cs = node op.lexeme.toList (ls ++ ' ' :: rs)) := by
  obtain ⟨hgroup, hvar, hassign⟩ := hop.operator_ne hk
  cases h with
  | unary hop' _ h =>
    have heq := Option.some.inj hhead
    exact ⟨_, hop'.mapLine_eq hop heq, .inl ⟨_, _, rfl, h, by rw [heq]⟩⟩
  | binary hop' _ hl hr =>
    have heq := Option.some.inj hhead
    exact ⟨_, hop'.mapLine_eq hop heq, .inr ⟨_, _, _, _, rfl, hl, hr, by rw [heq]⟩⟩
  | literal _ _ => cases hhead
  | paren _ => exact absurd (Option.some.inj hhead).symm hgroup
  | name _ _ => exact absurd (Option.some.inj hhead).symm hvar
  | assign _ _ _ => exact absurd (Option.some.inj hhead).symm hassign

end

/-! ## §5. Unique reading. -/

/-- **UNIQUE READING.**  A text begins with the printed form of one expression
at most, up to the lines of its tokens. -/
theorem Expr.Prints.append_inj {e e' : Expr} {cs cs' rest rest' : List Char}
    (h : e.Prints cs) (h' : e'.Prints cs') (hrest : IsClosed rest) (hrest' : IsClosed rest')
    (heq : cs ++ rest = cs' ++ rest') :
    e.mapLine nowhere = e'.mapLine nowhere ∧ rest = rest' := by
  -- on the first expression; what the second one is, its head says
  induction h generalizing e' cs' rest rest' with
  | literal hv hs =>
    have hhead := (Expr.Prints.literal hv hs).head?_eq h' hrest hrest' heq
    obtain ⟨w, t, rfl, hw, ht, rfl⟩ := h'.of_no_head hhead
    obtain ⟨rfl, hr⟩ := Value.display_append_inj hv hw hs ht hrest hrest' heq
    exact ⟨rfl, hr⟩
  | paren hp ih =>
    have hhead := hp.paren.head?_eq h' hrest hrest' heq
    obtain ⟨e', cs', rfl, hp', rfl⟩ := h'.of_groupHead hhead
    obtain ⟨hinner, hr⟩ := ih hp' (isClosed_paren _) (isClosed_paren _) (node_append_cancel heq)
    exact ⟨by rw [Expr.mapLine, Expr.mapLine, hinner], (List.cons.inj hr).2⟩
  | unary ht hk hp ih =>
    have hhead := (hp.unary ht hk).head?_eq h' hrest hrest' heq
    obtain ⟨op, hop, ⟨e', cs', rfl, hp', rfl⟩ | ⟨l, r, ls, rs, rfl, hl, -, rfl⟩⟩ :=
      h'.of_operator ht hk hhead
    · obtain ⟨hoperand, hr⟩ :=
        ih hp' (isClosed_paren _) (isClosed_paren _) (node_append_cancel heq)
      exact ⟨by rw [Expr.mapLine, Expr.mapLine, hoperand, hop], (List.cons.inj hr).2⟩
    · -- behind the first part stand a parenthesis here and a space there
      have hbody := node_append_cancel heq
      rw [List.append_assoc, List.cons_append] at hbody
      obtain ⟨-, hr⟩ := ih hl (isClosed_paren _) (isClosed_space _) hbody
      exact absurd (List.cons.inj hr).1 (by decide)
  | binary ht hk hl hr ihl ihr =>
    have hhead := (hl.binary ht hk hr).head?_eq h' hrest hrest' heq
    obtain ⟨op, hop, ⟨e', cs', rfl, hp', rfl⟩ | ⟨l, r, ls, rs, rfl, hl', hr', rfl⟩⟩ :=
      h'.of_operator ht hk hhead
    · have hbody := node_append_cancel heq
      rw [List.append_assoc, List.cons_append] at hbody
      obtain ⟨-, hend⟩ := ihl hp' (isClosed_space _) (isClosed_paren _) hbody
      exact absurd (List.cons.inj hend).1 (by decide)
    · have hbody := node_append_cancel heq
      rw [List.append_assoc, List.append_assoc, List.cons_append, List.cons_append] at hbody
      obtain ⟨hleft, hbehind⟩ := ihl hl' (isClosed_space _) (isClosed_space _) hbody
      obtain ⟨hright, hend⟩ :=
        ihr hr' (isClosed_paren _) (isClosed_paren _) (List.cons.inj hbehind).2
      exact ⟨by rw [Expr.mapLine, Expr.mapLine, hleft, hright, hop], (List.cons.inj hend).2⟩
  | name ht hk =>
    have hhead := (Expr.Prints.name ht hk).head?_eq h' hrest hrest' heq
    obtain ⟨t, rfl, ht', hk', rfl⟩ := h'.of_varHead hhead
    obtain ⟨hname, hr⟩ := append_inj_of_isWord (ht.name hk) (ht'.name hk') (isClosed_paren _)
      (isClosed_paren _) (node_append_cancel heq)
    exact ⟨by rw [Expr.mapLine, Expr.mapLine, ht.mapLine_eq ht' hname], (List.cons.inj hr).2⟩
  | assign ht hk hp ih =>
    have hhead := (hp.assign ht hk).head?_eq h' hrest hrest' heq
    obtain ⟨t, e', cs', rfl, ht', hk', hp', rfl⟩ := h'.of_assignHead hhead
    have hbody := node_append_cancel heq
    simp only [List.append_assoc, List.cons_append] at hbody
    obtain ⟨hname, hbehind⟩ := append_inj_of_isWord (ht.name hk) (ht'.name hk')
      (isClosed_space _) (isClosed_space _) hbody
    simp only [List.cons.injEq, true_and] at hbehind
    obtain ⟨hvalue, hr⟩ := ih hp' (isClosed_paren _) (isClosed_paren _) hbehind
    exact ⟨by rw [Expr.mapLine, Expr.mapLine, hvalue, ht.mapLine_eq ht' hname],
      (List.cons.inj hr).2⟩

/-- **Expressions** that are printed alike differ in the lines of their tokens
alone. -/
theorem Expr.Prints.inj {e e' : Expr} {cs : List Char} (h : e.Prints cs) (h' : e'.Prints cs) :
    e.mapLine nowhere = e'.mapLine nowhere :=
  (h.append_inj h' isClosed_nil isClosed_nil rfl).1

end LoxScript
