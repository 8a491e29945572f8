import RelStore.Proofs.Statement.Begins

/-! What an error of a statement points at: the first token with which the text is no beginning
of a statement any more. -/
namespace RelStore
namespace Statement

open Grammar
open Token (scan)

variable {us : List Token.Kind} {ts before before' after after' more : List Token} {t t' : Token}
  {text : String} {s : Statement} {x : Expectation} {column : String}

def Viable (ts : List Token) : Prop := ∃ text s, ofTokens (ts ++ scan text) = .ok s

/-- The tokens `before` can still become a statement, and with `t` behind them they cannot,
whatever comes then. -/
structure FirstWrong (before : List Token) (t : Token) : Prop where
  viable : Viable before
  wrong : ∀ more s, ofTokens (before ++ t :: more) ≠ .ok s

theorem FirstWrong.length_le (h : FirstWrong before t) (h' : FirstWrong before' t')
    (heq : before ++ t :: after = before' ++ t' :: after') : before'.length ≤ before.length := by
  by_contra hlt
  obtain ⟨rest, rfl⟩ : ∃ rest, before' = before ++ t :: rest := by
    obtain ⟨mid, rfl, hmid⟩ | ⟨mid, rfl, hmid⟩ := List.append_eq_append_iff.1 heq
    · cases mid with
      | nil => simp at hlt
      | cons u mid =>
        rw [List.cons_append, List.cons.injEq] at hmid
        exact ⟨mid, by rw [hmid.1]⟩
    · simp at hlt
  -- what is viable goes on behind `t`
  obtain ⟨text, s, hs⟩ := h'.viable
  rw [List.append_assoc, List.cons_append] at hs
  exact h.wrong _ s hs

theorem FirstWrong.unique (h : FirstWrong before t) (h' : FirstWrong before' t')
    (heq : before ++ t :: after = before' ++ t' :: after') : before = before' ∧ t = t' := by
  have hlength := Nat.le_antisymm (h'.length_le h heq.symm) (h.length_le h' heq)
  obtain ⟨hbefore, htail⟩ := List.append_inj heq hlength
  exact ⟨hbefore, (List.cons.inj htail).1⟩

def IsRepeated (before : List Token) (t : Token) : Prop :=
  ∃ column, t.kind = .identifier column ∧ Reassigns (before.map Token.kind) column

theorem proper_append_of (h : ∀ t ∈ before, t.kind ≠ .endOfInput) (more : List Token) :
    proper (before ++ more) = before ++ proper more :=
  List.takeWhile_append_of_pos fun t ht => bne_iff_ne.2 (h t ht)

theorem kind_ne_of_mem_proper (h : t ∈ proper ts) : t.kind ≠ .endOfInput := by
  simpa using List.mem_takeWhile_imp h

theorem scan_eq_proper_append (text : String) :
    ∃ back, scan text = proper (scan text) ++ ending (scan text) :: back := by
  obtain ⟨front, hscan, hfront⟩ := (Token.scan_eq_iff.1 (rfl : scan text = scan text)).end
  have hfind : (scan text).find? (fun t => t.kind == .endOfInput) =
      some ⟨.endOfInput, Token.place ([] ++ text.toList)⟩ := by
    rw [hscan, List.find?_append, List.find?_eq_none.2 (by simpa using hfront)]
    rfl
  obtain ⟨back, hback⟩ := eq_proper_append hfind
  refine ⟨back, hback.trans ?_⟩
  rw [ending, hfind]

theorem viable_of_begins (hbefore : ∀ t ∈ before, t.kind ≠ .endOfInput)
    (h : Begins Derives (before.map Token.kind)) : Viable before := by
  obtain ⟨s, more, hs, hmore⟩ := h
  obtain ⟨text, htext⟩ := Token.scan_of_writable hmore
  have hkinds : ∀ k ∈ more, k ≠ .endOfInput := by
    intro k hk
    obtain ⟨body, hbody⟩ := hmore k hk
    rintro rfl
    cases hbody
  have hproper : (proper (scan text)).map Token.kind = more := by
    rw [map_kind_proper, htext, List.takeWhile_append_of_pos fun k hk => bne_iff_ne.2 (hkinds k hk)]
    simp
  refine ⟨text, s, ofTokens_ok_iff_derives.2 ?_⟩
  rw [proper_append_of hbefore, List.map_append, hproper]
  exact hs

theorem wrong_of_whole (h : whole (before ++ after) = .error ⟨x, after⟩)
    (hproper : ∀ t ∈ before ++ after, t.kind ≠ .endOfInput) (ht : t.kind = .endOfInput)
    (more : List Token) (s : Statement) :
    ofTokens (before ++ after.headD t :: more) ≠ .ok s := by
  obtain ⟨us, hus, hall⟩ := whole_stuck h
  obtain rfl := spells_unique hus ⟨before, rfl, rfl⟩
  have hbefore : ∀ t ∈ before, t.kind ≠ .endOfInput :=
    fun t ht => hproper t (List.mem_append_left after ht)
  have hnext : next (proper (after.headD t :: more)) = next after := by
    cases after with
    | nil => simp [proper, ht, next]
    | cons u after =>
      have hu := hproper u (List.mem_append_right before List.mem_cons_self)
      simp [proper, hu, next]
  have hstuck := hall _ _ ⟨before, rfl, rfl⟩ hnext
  rw [ofTokens, proper_append_of hbefore, hstuck]
  intro hok
  cases hok

theorem FirstWrong.of_reassigns (hbefore : ∀ t ∈ before, t.kind ≠ .endOfInput)
    (h : Reassigns (before.map Token.kind) column) (ht : t.kind = .identifier column) :
    FirstWrong before t := by
  refine ⟨viable_of_begins hbefore h.begins, fun more s => ?_⟩
  have hproper : proper (before ++ t :: more) = before ++ t :: proper more := by
    rw [proper_append_of hbefore, proper, List.takeWhile_cons_of_pos (by simp [ht])]
    rfl
  have hspells : Spells (before.map Token.kind ++ [.identifier column])
      (before ++ t :: proper more) (proper more) := ⟨before ++ [t], by simp, by simp [ht]⟩
  rw [ofTokens, hproper, whole_reassigned h hspells]
  intro hok
  cases hok

theorem not_isRepeated_of_whole (h : whole (before ++ after) = .error ⟨x, after⟩)
    (ht : t.kind = .endOfInput) : ¬ IsRepeated before (after.headD t) := by
  rintro ⟨column, hkind, hrepeated⟩
  cases after with
  | nil =>
    rw [List.headD_nil, ht] at hkind
    cases hkind
  | cons u after =>
    have hspells : Spells (before.map Token.kind ++ [.identifier column]) (before ++ u :: after)
        after := ⟨before ++ [u], by simp, by simpa using hkind⟩
    rw [whole_reassigned hrepeated hspells] at h
    simp at h

/-- Where the tokens of a statement are stuck, or right before that, is the first wrong token. -/
theorem whole_first_wrong (h : whole ts = .error ⟨x, more⟩) (hts : ∀ t ∈ ts, t.kind ≠ .endOfInput)
    (ht : t.kind = .endOfInput) (back : List Token) :
    ∃ before u after, ts ++ t :: back = before ++ u :: after ∧ FirstWrong before u ∧
      (¬ IsRepeated before u ∧ more.headD t = u ∨
        IsRepeated before u ∧ after.head? = some (more.headD t)) := by
  obtain ⟨us, ⟨front, rfl, rfl⟩, hcases⟩ := whole_begins h
  have hfront : ∀ t ∈ front, t.kind ≠ .endOfInput :=
    fun t ht => hts t (List.mem_append_left more ht)
  obtain ⟨after, hafter⟩ :
      ∃ after, front ++ more ++ t :: back = front ++ more.headD t :: after := by
    rw [List.append_assoc]
    cases more with
    | nil => exact ⟨back, rfl⟩
    | cons u more => exact ⟨_, rfl⟩
  rcases hcases with hbegins | hreassigned
  · have hfirst : FirstWrong front (more.headD t) :=
      ⟨viable_of_begins hfront hbegins, wrong_of_whole h hts ht⟩
    exact ⟨front, _, after, hafter, hfirst, .inl ⟨not_isRepeated_of_whole h ht, rfl⟩⟩
  · generalize hus : front.map Token.kind = us at hreassigned
    obtain ⟨hrepeated⟩ := hreassigned
    obtain ⟨front, names, rfl, rfl, hnames⟩ := List.map_eq_append_iff.1 hus
    obtain ⟨name, rfl, hname⟩ := List.map_eq_singleton_iff.1 hnames
    have hfirst := FirstWrong.of_reassigns
      (fun t ht => hfront t (List.mem_append_left _ ht)) hrepeated hname
    refine ⟨front, name, more.headD t :: after, ?_, hfirst, .inr ⟨⟨_, hname, hrepeated⟩, rfl⟩⟩
    rw [hafter, List.append_assoc]
    rfl

theorem message_misread (x : Expectation) (found : Token) :
    (Error.misread ⟨x, found⟩).message = "Parse error: " ++ (x.message ++ ", found " ++
      found.kind.describe ++ " at line " ++ toString found.position.line ++
      " column " ++ toString found.position.column) := by
  have hclass : (Error.misread ⟨x, found⟩).errorClass ≠ .cancelled := nofun
  rw [Error.message, if_neg hclass]
  rfl

/-- An error of a statement points at the first wrong token of the text. Only where that is the
name of a column which was assigned before, it points at the token behind it. -/
theorem parse_error_first_wrong {e : Error} (h : parse text = .error e) :
    ∃ x found before t after, scan text = before ++ t :: after ∧ FirstWrong before t ∧
      (¬ IsRepeated before t ∧ found = t ∨ IsRepeated before t ∧ after.head? = some found) ∧
      e = .misread ⟨x, found⟩ ∧
      e.message = "Parse error: " ++ (x.message ++ ", found " ++ found.kind.describe ++
        " at line " ++ toString found.position.line ++
        " column " ++ toString found.position.column) := by
  rw [parse, ofTokens] at h
  split at h
  · cases h
  rename_i stuck hwhole
  cases h
  obtain ⟨back, hback⟩ := scan_eq_proper_append text
  obtain ⟨before, t, after, hsplit, hfirst, hfound⟩ :=
    whole_first_wrong hwhole (fun t ht => kind_ne_of_mem_proper ht) (kind_ending _) back
  exact ⟨stuck.expected, stuck.rest.headD (ending (scan text)), before, t, after,
    hback.trans hsplit, hfirst, hfound, rfl, message_misread _ _⟩

theorem parse_error_first_wrong_update :
    let text := "UPDATE t SET a = 1,\n a = 2 WHERE b = 3"
    let e := Error.misread ⟨.unassigned "a", ⟨.equal, ⟨2, 4⟩⟩⟩
    parse text = .error e ∧
    ∃ x found before t after, scan text = before ++ t :: after ∧ FirstWrong before t ∧
      (¬ IsRepeated before t ∧ found = t ∨ IsRepeated before t ∧ after.head? = some found) ∧
      e = .misread ⟨x, found⟩ ∧
      e.message = "Parse error: " ++ (x.message ++ ", found " ++ found.kind.describe ++
        " at line " ++ toString found.position.line ++
        " column " ++ toString found.position.column) := by
  intro text e
  have herror : parse text = .error e := by decide +kernel
  exact ⟨herror, parse_error_first_wrong herror⟩

end Statement
end RelStore
