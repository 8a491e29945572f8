import Mathlib.Data.List.TakeWhile
import RelStore.Proofs.Statement.Parse
import RelStore.Statement.Cursor

/-! Reading by position is reading from the front of a list, and it never reaches a position
that has no token. -/
namespace RelStore
namespace Statement

variable {α β γ δ : Type} {ts rest : List Token} {p : Nat} {k : Token.Kind}

theorem kind_ending (ts : List Token) : (ending ts).kind = .endOfInput := by
  unfold ending
  split
  · rename_i t ht
    simpa using List.find?_some ht
  · rfl

theorem proper_eq_self (h : ts.find? (fun t => t.kind == .endOfInput) = none) :
    proper ts = ts := by
  rw [proper, List.takeWhile_eq_self_iff]
  simpa using h

theorem eq_proper_append {t : Token} (h : ts.find? (fun t => t.kind == .endOfInput) = some t) :
    ∃ back, ts = proper ts ++ t :: back := by
  obtain ⟨ht, front, back, rfl, hfront⟩ := List.find?_eq_some_iff_append.1 h
  have hnone : front.find? (fun t => t.kind == .endOfInput) = none := by simpa using hfront
  exact ⟨back, by rw [proper_append (by simpa using ht), proper_eq_self hnone]⟩

/-- The tokens of a statement come first, and then the end of input. -/
theorem closed_eq (ts : List Token) : ∃ back, closed ts = proper ts ++ ending ts :: back := by
  unfold closed
  cases hfind : ts.find? (fun t => t.kind == .endOfInput) with
  | some t =>
    obtain ⟨back, hback⟩ := eq_proper_append hfind
    have hend : ending ts = t := by rw [ending, hfind]
    rw [hend]
    -- what stands behind the first end of input does not matter, not even whether it ends with one
    split
    · exact ⟨back, hback⟩
    · exact ⟨back ++ [⟨.endOfInput, (ts.getLast?.map (·.position)).getD .start⟩], by
        rw [← List.cons_append, ← List.append_assoc, ← hback]⟩
  | none =>
    have hlast : ts.getLast?.any (fun t => t.kind == .endOfInput) = false := by
      rw [List.find?_eq_none] at hfind
      cases hl : ts.getLast? with
      | none => rfl
      | some t => simpa using hfind t (List.mem_of_getLast? hl)
    rw [hlast, ending, hfind, proper_eq_self hfind]
    exact ⟨[], rfl⟩

/-- At a position `rest` are the tokens of the statement that are left. -/
def At (ts : List Token) (p : Nat) (rest : List Token) : Prop :=
  ∃ front, proper ts = front ++ rest ∧ p = front.length

theorem at_zero (ts : List Token) : At ts 0 (proper ts) := ⟨[], rfl, rfl⟩

theorem At.getElem? (h : At ts p rest) : (closed ts)[p]? = some (rest.headD (ending ts)) := by
  obtain ⟨front, hproper, rfl⟩ := h
  obtain ⟨back, hback⟩ := closed_eq ts
  rw [hback, hproper, List.append_assoc, List.getElem?_append_right (Nat.le_refl _), Nat.sub_self]
  cases rest <;> rfl

theorem At.next {t : Token} (h : At ts p (t :: rest)) :
    Cursor.advance (closed ts) p = p + 1 ∧ At ts (p + 1) rest := by
  obtain ⟨front, hproper, rfl⟩ := h
  obtain ⟨back, hback⟩ := closed_eq ts
  constructor
  · rw [Cursor.advance, if_pos]
    rw [hback, hproper]
    simp only [List.length_append, List.length_cons]
    omega
  · exact ⟨front ++ [t], by rw [hproper, List.append_assoc]; rfl, by simp⟩

theorem At.kind_ne {t : Token} (h : At ts p (t :: rest)) : t.kind ≠ .endOfInput := by
  obtain ⟨front, hproper, -⟩ := h
  have ht : t ∈ proper ts := by simp [hproper]
  simpa using List.mem_takeWhile_imp ht

theorem At.length_lt (h : At ts p rest) : rest.length < (closed ts).length := by
  obtain ⟨front, hproper, rfl⟩ := h
  obtain ⟨back, hback⟩ := closed_eq ts
  rw [hback, hproper]
  simp only [List.length_append, List.length_cons]
  omega

def Stuck.error (ts : List Token) (s : Stuck) : Error :=
  .misread ⟨s.expected, s.rest.headD (ending ts)⟩

def Agrees (ts : List Token) (R : α → β → Prop) : Except Error α → Except Stuck β → Prop
  | .ok a, .ok b => R a b
  | .error e, .error s => e = s.error ts
  | _, _ => False

/-- The same was read, up to the same place. -/
def Reached (ts : List Token) (x : α × Nat) (y : α × List Token) : Prop :=
  x.1 = y.1 ∧ At ts x.2 y.2

theorem Agrees.bind {R : α → β → Prop} {S : γ → δ → Prop} {x : Except Error α}
    {y : Except Stuck β} {f : α → Except Error γ} {g : β → Except Stuck δ} (h : Agrees ts R x y)
    (hf : ∀ a b, R a b → Agrees ts S (f a) (g b)) : Agrees ts S (x >>= f) (y >>= g) := by
  rcases x with e | a <;> rcases y with s | b
  · exact h
  · exact h.elim
  · exact h.elim
  · exact hf a b h

theorem Agrees.read {S : γ → δ → Prop} {x : Except Error (α × Nat)}
    {y : Except Stuck (α × List Token)} {f : α × Nat → Except Error γ}
    {g : α × List Token → Except Stuck δ} (h : Agrees ts (Reached ts) x y)
    (hf : ∀ a p rest, At ts p rest → Agrees ts S (f (a, p)) (g (a, rest))) :
    Agrees ts S (x >>= f) (y >>= g) := by
  refine h.bind ?_
  rintro ⟨a, p⟩ ⟨_, rest⟩ ⟨rfl, hp⟩
  exact hf a p rest hp

/-- What holds of everything that is read from the list may be used of the result. -/
theorem Agrees.and {R : α → β → Prop} {P : β → Prop} {x : Except Error α} {y : Except Stuck β}
    (h : Agrees ts R x y) (hP : ∀ b, y = .ok b → P b) : Agrees ts (fun a b => R a b ∧ P b) x y := by
  rcases x with e | a <;> rcases y with s | b
  · exact h
  · exact h.elim
  · exact h.elim
  · exact ⟨h, hP b rfl⟩

theorem At.current (h : At ts p rest) :
    Cursor.current (closed ts) p = .ok (rest.headD (ending ts)) := by
  rw [Cursor.current, h.getElem?]

theorem agrees_fail {R : α → β → Prop} (h : At ts p rest) (x : Expectation) :
    Agrees ts R (Cursor.fail (closed ts) p x) (.error ⟨x, rest⟩) := by
  rw [Cursor.fail, h.current]
  rfl

/-- A token of some kind is found at a position if it comes first there. -/
theorem At.after? (h : At ts p rest) (hk : k ≠ .endOfInput) :
    (∃ p' rest', Cursor.after? (closed ts) k p = .ok (some p') ∧
      Statement.after? k rest = some rest' ∧ At ts p' rest') ∨
    (Cursor.after? (closed ts) k p = .ok none ∧ Statement.after? k rest = none) := by
  rw [Cursor.after?, h.current]
  cases rest with
  | nil =>
    have hend : (ending ts).kind ≠ k := fun he => hk (he.symm.trans (kind_ending ts))
    exact .inr ⟨by simp [hend], rfl⟩
  | cons t rest =>
    by_cases ht : t.kind = k
    · obtain ⟨hadvance, hnext⟩ := h.next
      exact .inl ⟨p + 1, rest, by simp [ht, hadvance], by simp [Statement.after?, ht], hnext⟩
    · exact .inr ⟨by simp [ht], by simp [Statement.after?, ht]⟩

theorem agrees_expect (h : At ts p rest) (hk : k ≠ .endOfInput) :
    Agrees ts (At ts) (Cursor.expect (closed ts) k p) (expect k rest) := by
  unfold Cursor.expect expect
  rcases h.after? hk with ⟨p', rest', hc, hl, hp⟩ | ⟨hc, hl⟩
  · rw [hc, hl]
    exact hp
  · rw [hc, hl, ok_bind]
    exact agrees_fail h _

/-- A reader of one token goes by its kind, and by no token the end of input. -/
theorem agrees_one {f : Token.Kind → Except Expectation α} {r : Reader α}
    (hnil : ∃ x, f .endOfInput = .error x ∧ r [] = .error ⟨x, []⟩)
    (hcons : ∀ t rest, r (t :: rest) = match f t.kind with
      | .ok a => .ok (a, rest)
      | .error x => .error ⟨x, t :: rest⟩)
    (h : At ts p rest) : Agrees ts (Reached ts) (Cursor.one (closed ts) f p) (r rest) := by
  rw [Cursor.one, h.current, ok_bind]
  cases rest with
  | nil =>
    obtain ⟨x, hx, hr⟩ := hnil
    rw [hr, List.headD_nil, kind_ending, hx]
    exact agrees_fail h x
  | cons t rest =>
    rw [hcons, List.headD_cons]
    cases hf : f t.kind with
    | ok a =>
      obtain ⟨hadvance, hnext⟩ := h.next
      exact ⟨rfl, hadvance.symm ▸ hnext⟩
    | error x => exact agrees_fail h x

theorem agrees_identifier (h : At ts p rest) :
    Agrees ts (Reached ts) (Cursor.identifier (closed ts) p) (identifier rest) := by
  refine agrees_one ⟨_, rfl, rfl⟩ ?_ h
  rintro ⟨k, q⟩ rest
  cases k <;> rfl

theorem agrees_literal (h : At ts p rest) :
    Agrees ts (Reached ts) (Cursor.literal (closed ts) p) (literal rest) := by
  refine agrees_one ⟨_, rfl, rfl⟩ ?_ h
  rintro ⟨k, q⟩ rest
  cases k with
  | number digits =>
    simp only [literal]
    cases Text.int64? digits <;> rfl
  | _ => rfl

theorem agrees_limit (h : At ts p rest) :
    Agrees ts (Reached ts) (Cursor.limit (closed ts) p) (limit rest) := by
  refine agrees_one ⟨_, rfl, rfl⟩ ?_ h
  rintro ⟨k, q⟩ rest
  cases k with
  | number digits =>
    simp only [limit]
    cases Text.nat64? digits <;> rfl
  | _ => rfl

theorem agrees_dataType (h : At ts p rest) :
    Agrees ts (Reached ts) (Cursor.dataType (closed ts) p) (dataType rest) := by
  refine agrees_one ⟨_, rfl, rfl⟩ ?_ h
  rintro ⟨k, q⟩ rest
  cases k with
  | keyword w => cases w <;> rfl
  | _ => rfl

theorem Reads.length_le {r : Reader α} {R : Grammar.Rule α} {no : List Token.Kind} {us : List Token}
    {y : α × List Token} (h : Reads r R no) (hr : r us = .ok y) : y.2.length ≤ us.length := by
  obtain ⟨ks, -, hs⟩ := h.sound hr
  have hl := hs.length_eq
  omega

/-- The loops end alike, as long as both may take more items than there are tokens. -/
theorem agrees_itemsFrom {c : List α → Cursor.Reader α} {r : List α → Reader α}
    (hitem : ∀ done p rest, At ts p rest → Agrees ts (Reached ts) (c done p) (r done rest))
    (hlength : ∀ done us y, r done us = .ok y → y.2.length ≤ us.length) {n m : Nat}
    (hn : rest.length < n) (hm : rest.length < m) (done : List α) (h : At ts p rest) :
    Agrees ts (Reached ts) (Cursor.itemsFrom (closed ts) c n done p) (itemsFrom r m done rest) := by
  induction n generalizing m done p rest with
  | zero => omega
  | succ n ih =>
    cases m with
    | zero => omega
    | succ m =>
      have hx := (hitem done p rest h).and (hlength done rest)
      refine hx.bind ?_
      rintro ⟨x, p₁⟩ ⟨_, rest₁⟩ ⟨⟨rfl, h₁⟩, hle⟩
      dsimp only at h₁ hle ⊢
      rcases h₁.after? (k := .comma) nofun with ⟨p₂, rest₂, hc, hl, h₂⟩ | ⟨hc, hl⟩
      · -- the comma is one of the tokens that were left, so both still have fuel
        have hlt := (after?_eq_some_iff.1 hl).length_eq
        rw [List.length_singleton] at hlt
        rw [hc, hl]
        exact ih (by omega) (by omega) (done ++ [x]) h₂
      · rw [hc, hl]
        exact ⟨rfl, h₁⟩

theorem agrees_items {c : List α → Cursor.Reader α} {r : List α → Reader α}
    (hitem : ∀ done p rest, At ts p rest → Agrees ts (Reached ts) (c done p) (r done rest))
    (hlength : ∀ done us y, r done us = .ok y → y.2.length ≤ us.length) (h : At ts p rest) :
    Agrees ts (Reached ts) (Cursor.items (closed ts) c p) (items r rest) :=
  agrees_itemsFrom hitem hlength h.length_lt (Nat.lt_succ_self _) [] h

theorem agrees_equation (seen : List String) (h : At ts p rest) :
    Agrees ts (Reached ts) (Cursor.equation (closed ts) seen p) (equation seen rest) := by
  refine (agrees_identifier h).read fun column p rest h => ?_
  by_cases hseen : column ∈ seen
  · simp only [hseen, if_true]
    have hfail : Agrees ts (fun (_ _ : Unit) => False)
        (Cursor.fail (closed ts) p (.unassigned column)) (.error ⟨.unassigned column, rest⟩) :=
      agrees_fail h _
    exact hfail.bind fun _ _ hfalse => hfalse.elim
  · simp only [hseen, if_false]
    refine (agrees_expect h (by decide)).bind fun p rest h => ?_
    refine (agrees_literal h).read fun v p rest h => ?_
    exact ⟨rfl, h⟩

theorem agrees_connective? (h : At ts p rest) :
    (∃ op p' rest', Cursor.connective? (closed ts) p = .ok (some (op, p')) ∧
      connective? rest = some (op, rest') ∧ At ts p' rest') ∨
    (Cursor.connective? (closed ts) p = .ok none ∧ connective? rest = none) := by
  rw [Cursor.connective?, h.current, ok_bind]
  cases rest with
  | nil => exact .inr ⟨by rw [List.headD_nil, kind_ending]; rfl, rfl⟩
  | cons t rest =>
    obtain ⟨hadvance, hnext⟩ := h.next
    rw [hadvance]
    obtain ⟨k, q⟩ := t
    cases k with
    | keyword w =>
      cases w with
      | and => exact .inl ⟨.and, p + 1, rest, rfl, rfl, hnext⟩
      | or => exact .inl ⟨.or, p + 1, rest, rfl, rfl, hnext⟩
      | _ => exact .inr ⟨rfl, rfl⟩
    | _ => exact .inr ⟨rfl, rfl⟩

theorem length_of_equation {seen : List String} {us : List Token}
    {y : (String × Value) × List Token} (h : equation seen us = .ok y) :
    y.2.length ≤ us.length := by
  obtain ⟨⟨ks, -, hs⟩, -⟩ := equation_eq_ok_iff.1 h
  have hl := hs.length_eq
  omega

theorem agrees_chainFrom {n m : Nat} (hn : rest.length ≤ n) (hm : rest.length ≤ m)
    (h : At ts p rest) :
    Agrees ts (Reached ts) (Cursor.chainFrom (closed ts) n p) (chainFrom m rest) := by
  induction n generalizing m p rest with
  | zero =>
    -- without fuel there are no tokens left, and the other one finds no connective either
    obtain rfl := List.length_eq_zero_iff.1 (Nat.le_zero.1 hn)
    cases m with
    | zero => exact ⟨rfl, h⟩
    | succ m => exact ⟨rfl, h⟩
  | succ n ih =>
    rw [Cursor.chainFrom]
    rcases agrees_connective? h with ⟨op, p₁, rest₁, hc, hl, h₁⟩ | ⟨hc, hl⟩
    · have hlt := (connective?_eq_some_iff.1 hl).length_eq
      rw [List.length_singleton] at hlt
      cases m with
      | zero => omega
      | succ m =>
        rw [hc, chainFrom, hl]
        refine ((agrees_equation [] h₁).and fun y hy => length_of_equation hy).bind ?_
        rintro ⟨⟨column, value⟩, p₂⟩ ⟨_, rest₂⟩ ⟨⟨rfl, h₂⟩, hle⟩
        dsimp only at h₂ hle
        refine (ih (by omega) (by omega) h₂).read fun more p₃ rest₃ h₃ => ?_
        exact ⟨rfl, h₃⟩
    · rw [hc]
      cases m with
      | zero => exact ⟨rfl, h⟩
      | succ m =>
        rw [chainFrom, hl]
        exact ⟨rfl, h⟩

theorem agrees_condition (h : At ts p rest) :
    Agrees ts (Reached ts) (Cursor.condition (closed ts) p) (condition rest) := by
  refine (agrees_equation [] h).read fun e p rest h => ?_
  refine (agrees_chainFrom h.length_lt.le (Nat.le_refl _) h).read fun l p rest h => ?_
  exact ⟨rfl, h⟩

theorem agrees_optional {c : Cursor.Reader α} {r : Reader α} (hk : k ≠ .endOfInput)
    (hpart : ∀ p rest, At ts p rest → Agrees ts (Reached ts) (c p) (r rest)) (h : At ts p rest) :
    Agrees ts (Reached ts) (Cursor.optional (closed ts) k c p) (optional k r rest) := by
  unfold Cursor.optional optional
  rcases h.after? hk with ⟨p₁, rest₁, hc, hl, h₁⟩ | ⟨hc, hl⟩
  · rw [hc, hl]
    exact (hpart p₁ rest₁ h₁).read fun x p rest h => ⟨rfl, h⟩
  · rw [hc, hl]
    exact ⟨rfl, h⟩

theorem agrees_column (h : At ts p rest) :
    Agrees ts (Reached ts) (Cursor.column (closed ts) p) (column rest) := by
  refine (agrees_identifier h).read fun name p rest h => ?_
  refine (agrees_dataType h).read fun type p rest h => ?_
  dsimp only
  rcases h.after? (k := .keyword .primary) (by decide) with ⟨p₁, rest₁, hc, hl, h₁⟩ | ⟨hc, hl⟩
  · rw [hc, hl]
    exact (agrees_expect h₁ (by decide)).bind fun p rest h => ⟨rfl, h⟩
  · rw [hc, hl, ok_bind]
    rcases h.after? (k := .keyword .unique) (by decide) with ⟨p₁, rest₁, hc, hl, h₁⟩ | ⟨hc, hl⟩
    · rw [hc, hl]
      exact ⟨rfl, h₁⟩
    · rw [hc, hl]
      exact ⟨rfl, h⟩

theorem agrees_selection (h : At ts p rest) :
    Agrees ts (Reached ts) (Cursor.selection (closed ts) p) (selection rest) := by
  unfold Cursor.selection selection
  rcases h.after? (k := .star) (by decide) with ⟨p₁, rest₁, hc, hl, h₁⟩ | ⟨hc, hl⟩
  · rw [hc, hl]
    exact ⟨rfl, h₁⟩
  · rw [hc, hl]
    have hreads : Reads identifier Grammar.Name [] := reads_identifier
    have hnames := agrees_items (fun _ _ _ h => agrees_identifier h)
      (fun _ _ _ hy => hreads.length_le hy) h
    exact hnames.read fun columns p rest h => ⟨rfl, h⟩

theorem agrees_join (h : At ts p rest) :
    Agrees ts (Reached ts) (Cursor.join (closed ts) p) (join rest) := by
  refine (agrees_identifier h).read fun table p rest h => ?_
  refine (agrees_expect h (by decide)).bind fun p rest h => ?_
  refine (agrees_identifier h).read fun left p rest h => ?_
  refine (agrees_expect h (by decide)).bind fun p rest h => ?_
  exact (agrees_identifier h).read fun right p rest h => ⟨rfl, h⟩

theorem agrees_selectBody (h : At ts p rest) :
    Agrees ts (Reached ts) (Cursor.selectBody (closed ts) p) (selectBody rest) := by
  refine (agrees_selection h).read fun chosen p rest h => ?_
  refine (agrees_expect h (by decide)).bind fun p rest h => ?_
  refine (agrees_identifier h).read fun table p rest h => ?_
  refine (agrees_optional (by decide) (fun _ _ h => agrees_join h) h).read fun j p rest h => ?_
  refine (agrees_optional (by decide) (fun _ _ h => agrees_condition h) h).read fun c p rest h => ?_
  refine (agrees_optional (by decide) (fun _ _ h => agrees_limit h) h).read fun n p rest h => ?_
  exact ⟨rfl, h⟩

theorem agrees_insertBody (h : At ts p rest) :
    Agrees ts (Reached ts) (Cursor.insertBody (closed ts) p) (insertBody rest) := by
  refine (agrees_expect h (by decide)).bind fun p rest h => ?_
  refine (agrees_identifier h).read fun table p rest h => ?_
  refine (agrees_expect h (by decide)).bind fun p rest h => ?_
  refine (agrees_expect h (by decide)).bind fun p rest h => ?_
  have hreads : Reads literal Grammar.Literal [] := reads_literal
  have hrow := agrees_items (fun _ _ _ h => agrees_literal h)
    (fun _ _ _ hy => hreads.length_le hy) h
  refine hrow.read fun row p rest h => ?_
  exact (agrees_expect h (by decide)).bind fun p rest h => ⟨rfl, h⟩

theorem agrees_updateBody (h : At ts p rest) :
    Agrees ts (Reached ts) (Cursor.updateBody (closed ts) p) (updateBody rest) := by
  refine (agrees_identifier h).read fun table p rest h => ?_
  refine (agrees_expect h (by decide)).bind fun p rest h => ?_
  have hchanges := agrees_items (fun done _ _ h => agrees_equation (done.map (·.1)) h)
    (fun _ _ _ hy => length_of_equation hy) h
  refine hchanges.read fun changes p rest h => ?_
  refine (agrees_expect h (by decide)).bind fun p rest h => ?_
  exact (agrees_condition h).read fun c p rest h => ⟨rfl, h⟩

theorem agrees_deleteBody (h : At ts p rest) :
    Agrees ts (Reached ts) (Cursor.deleteBody (closed ts) p) (deleteBody rest) := by
  refine (agrees_expect h (by decide)).bind fun p rest h => ?_
  refine (agrees_identifier h).read fun table p rest h => ?_
  refine (agrees_expect h (by decide)).bind fun p rest h => ?_
  exact (agrees_condition h).read fun c p rest h => ⟨rfl, h⟩

theorem agrees_absence (h : At ts p rest) :
    Agrees ts (Reached ts) (Cursor.absence (closed ts) p) (absence rest) := by
  refine (agrees_expect h (by decide)).bind fun p rest h => ?_
  exact (agrees_expect h (by decide)).bind fun p rest h => ⟨rfl, h⟩

theorem agrees_createBody (h : At ts p rest) :
    Agrees ts (Reached ts) (Cursor.createBody (closed ts) p) (createBody rest) := by
  refine (agrees_expect h (by decide)).bind fun p rest h => ?_
  refine (agrees_optional (by decide) (fun _ _ h => agrees_absence h) h).read fun a p rest h => ?_
  refine (agrees_identifier h).read fun table p rest h => ?_
  refine (agrees_expect h (by decide)).bind fun p rest h => ?_
  have hcolumns := agrees_items (fun _ _ _ h => agrees_column h)
    (fun _ _ _ hy => reads_column.length_le hy) h
  refine hcolumns.read fun columns p rest h => ?_
  exact (agrees_expect h (by decide)).bind fun p rest h => ⟨rfl, h⟩

theorem agrees_statement (h : At ts p rest) :
    Agrees ts (Reached ts) (Cursor.statement (closed ts) p) (statement rest) := by
  rw [Cursor.statement, h.current, ok_bind]
  cases rest with
  | nil =>
    rw [List.headD_nil, kind_ending]
    exact agrees_fail h .statement
  | cons t rest =>
    obtain ⟨hadvance, hnext⟩ := h.next
    rw [hadvance, List.headD_cons]
    obtain ⟨k, q⟩ := t
    cases k with
    | keyword w =>
      cases w with
      | select => exact agrees_selectBody hnext
      | insert => exact agrees_insertBody hnext
      | update => exact agrees_updateBody hnext
      | delete => exact agrees_deleteBody hnext
      | create => exact agrees_createBody hnext
      | _ => exact agrees_fail h .statement
    | _ => exact agrees_fail h .statement

theorem agrees_whole (ts : List Token) :
    Agrees ts Eq (Cursor.whole (closed ts)) (whole (proper ts)) := by
  refine (agrees_statement (at_zero ts)).read fun s p rest h => ?_
  dsimp only
  rw [h.current, ok_bind]
  cases rest with
  | nil =>
    rw [List.headD_nil, if_pos (kind_ending ts)]
    rfl
  | cons t rest =>
    rw [List.headD_cons, if_neg h.kind_ne]
    exact agrees_fail h .endOfInput

/-- Read by position a list of tokens is the statement, or the misreading, that it is when
it is read from the front. -/
theorem atPositions_eq (ts : List Token) : atPositions ts = ofTokens ts := by
  have h := agrees_whole ts
  unfold atPositions ofTokens
  cases hc : Cursor.whole (closed ts) with
  | ok s =>
    cases hl : whole (proper ts) with
    | ok s' =>
      rw [hc, hl] at h
      exact congrArg Except.ok h
    | error stuck =>
      rw [hc, hl] at h
      exact h.elim
  | error e =>
    cases hl : whole (proper ts) with
    | ok s' =>
      rw [hc, hl] at h
      exact h.elim
    | error stuck =>
      rw [hc, hl] at h
      exact congrArg Except.error h

end Statement
end RelStore
