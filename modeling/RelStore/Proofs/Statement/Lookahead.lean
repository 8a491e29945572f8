import RelStore.Proofs.Statement.Parse

/-! How far readers look. What a reader reads, and where and why it stops, is settled by the
kinds of the tokens that it takes and of the one behind them; places make no difference, and
neither do the tokens further on. -/
namespace RelStore
namespace Statement

variable {α β : Type} {us vs : List Token.Kind} {ts ts' mid mid' rest rest' : List Token}
  {k : Token.Kind} {r : Reader α}

def next (ts : List Token) : Option Token.Kind := ts.head?.map Token.kind

theorem next_eq_of_spells (h : Spells (k :: us) ts rest) : next ts = some k := by
  obtain ⟨mid, h, -⟩ := spells_cons_iff.1 h
  obtain ⟨p, rfl⟩ := spells_singleton_iff.1 h
  rfl

theorem next_of_spells (h : Spells us ts rest) (h' : Spells us ts' rest')
    (hnext : next rest' = next rest) : next ts' = next ts := by
  cases us with
  | nil => rwa [spells_nil_iff.1 h, spells_nil_iff.1 h']
  | cons k us => rw [next_eq_of_spells h, next_eq_of_spells h']

/-- A value or what was expected instead, with the tokens that are left. -/
def ends (o : Except Expectation α) (rest : List Token) : Except Stuck (α × List Token) :=
  match o with
  | .ok a => .ok (a, rest)
  | .error x => .error ⟨x, rest⟩

theorem ok_eq_ends {o : Except Expectation α} {y : α × List Token} :
    .ok y = ends o rest ↔ o = .ok y.1 ∧ rest = y.2 := by
  obtain ⟨a, mid⟩ := y
  cases o with
  | ok b => simp only [ends, Except.ok.injEq, Prod.mk.injEq, eq_comm]
  | error x => simp [ends]

theorem error_eq_ends {o : Except Expectation α} {s : Stuck} :
    .error s = ends o rest ↔ o = .error s.expected ∧ rest = s.rest := by
  obtain ⟨x, mid⟩ := s
  cases o with
  | ok b => simp [ends]
  | error y => simp only [ends, Except.error.injEq, Stuck.mk.injEq, eq_comm]

/-- A reader that goes by the kinds of the tokens that it takes and of one token behind them. -/
def OneAhead (r : Reader α) : Prop :=
  ∀ ts o rest, r ts = ends o rest → ∃ us, Spells us ts rest ∧
    ∀ ts' rest', Spells us ts' rest' → next rest' = next rest → r ts' = ends o rest'

theorem next_eq_none : next ts = none ↔ ts = [] := by
  cases ts <;> simp [next]

theorem next_eq_some : next ts = some k ↔ ∃ p rest, ts = ⟨k, p⟩ :: rest := by
  rcases ts with _ | ⟨⟨k', p⟩, rest⟩ <;> simp [next]

def single (f : Option Token.Kind → Except Expectation α) : Reader α := fun ts =>
  match f (next ts) with
  | .ok a => .ok (a, ts.tail)
  | .error x => .error ⟨x, ts⟩

theorem identifier_eq_single : identifier = single fun
    | some (.identifier name) => .ok name
    | _ => .error .identifier := by
  funext ts
  rcases ts with _ | ⟨⟨k, p⟩, ts⟩
  · rfl
  · cases k <;> rfl

theorem literal_eq_single : literal = single fun
    | some (.number digits) =>
      match Text.int64? digits with
      | some n => .ok (.int n)
      | none => .error (.integerInRange digits)
    | some (.text s) => .ok (.text s)
    | _ => .error .literal := by
  funext ts
  rcases ts with _ | ⟨⟨k, p⟩, ts⟩
  · rfl
  · cases k with
    | number digits =>
      simp only [literal, single, next, List.head?_cons, Option.map_some]
      cases Text.int64? digits <;> rfl
    | _ => rfl

theorem limit_eq_single : limit = single fun
    | some (.number digits) =>
      match Text.nat64? digits with
      | some n => .ok n
      | none => .error (.limitInRange digits)
    | _ => .error .number := by
  funext ts
  rcases ts with _ | ⟨⟨k, p⟩, ts⟩
  · rfl
  · cases k with
    | number digits =>
      simp only [limit, single, next, List.head?_cons, Option.map_some]
      cases Text.nat64? digits <;> rfl
    | _ => rfl

theorem dataType_eq_single : dataType = single fun
    | some (.keyword .int) => .ok .int
    | some (.keyword .text) => .ok .text
    | _ => .error .dataType := by
  funext ts
  rcases ts with _ | ⟨⟨k, p⟩, ts⟩
  · rfl
  · cases k with
    | keyword w => cases w <;> rfl
    | _ => rfl

theorem single_stuck {f : Option Token.Kind → Except Expectation α} {x : Expectation}
    (h : single f ts = .error ⟨x, rest⟩) : rest = ts := by
  unfold single at h
  split at h
  · cases h
  · cases h
    rfl

theorem oneAhead_single {f : Option Token.Kind → Except Expectation α}
    (hnone : ∀ a, f none ≠ .ok a) : OneAhead (single f) := by
  intro ts o rest h
  cases hf : f (next ts) with
  | ok a =>
    simp only [single, hf] at h
    obtain ⟨rfl, rfl⟩ := ok_eq_ends.1 h
    cases hn : next ts with
    | none =>
      rw [hn] at hf
      exact absurd hf (hnone a)
    | some k =>
      obtain ⟨p, rest, rfl⟩ := next_eq_some.1 hn
      refine ⟨[k], spells_singleton_iff.2 ⟨p, rfl⟩, fun ts' rest' hs _ => ?_⟩
      obtain ⟨p', rfl⟩ := spells_singleton_iff.1 hs
      have hsame : f (next (⟨k, p'⟩ :: rest')) = .ok a := hf
      simp only [single, hsame]
      rfl
  | error x =>
    simp only [single, hf] at h
    obtain ⟨rfl, rfl⟩ := error_eq_ends.1 h
    refine ⟨[], spells_nil, fun ts' rest' hs hnext => ?_⟩
    obtain rfl := spells_nil_iff.1 hs
    have hsame : f (next ts') = .error x := by rw [hnext]; exact hf
    simp only [single, hsame]
    rfl

theorem oneAhead_identifier : OneAhead identifier := by
  rw [identifier_eq_single]
  exact oneAhead_single nofun

theorem oneAhead_literal : OneAhead literal := by
  rw [literal_eq_single]
  exact oneAhead_single nofun

theorem oneAhead_limit : OneAhead limit := by
  rw [limit_eq_single]
  exact oneAhead_single nofun

theorem oneAhead_dataType : OneAhead dataType := by
  rw [dataType_eq_single]
  exact oneAhead_single nofun

/-- Nothing is taken, and it makes no difference what comes. -/
theorem oneAhead_ends (o : Except Expectation α) : OneAhead (ends o) := by
  intro ts o' rest h
  obtain ⟨rfl, rfl⟩ : o = o' ∧ ts = rest := by
    cases o with
    | ok a =>
      obtain ⟨rfl, rfl⟩ := ok_eq_ends.1 h
      exact ⟨rfl, rfl⟩
    | error x =>
      obtain ⟨rfl, rfl⟩ := error_eq_ends.1 h
      exact ⟨rfl, rfl⟩
  refine ⟨[], spells_nil, fun ts' rest' hs _ => ?_⟩
  rw [spells_nil_iff.1 hs]

/-- What is read in two steps ends as the second of them does, if it gets there. -/
theorem Spells.then_ends {f : Reader β} {o : Except Expectation β} (hs : Spells us ts mid)
    (hf : OneAhead f) (h : f mid = ends o rest) :
    ∃ vs, Spells (us ++ vs) ts rest ∧
      ∀ ts' rest', Spells (us ++ vs) ts' rest' → next rest' = next rest →
        ∃ mid', Spells us ts' mid' ∧ next mid' = next mid ∧ f mid' = ends o rest' := by
  obtain ⟨vs, hv, hall⟩ := hf _ _ _ h
  refine ⟨vs, hs.append hv, fun ts' rest' hs' hnext => ?_⟩
  obtain ⟨mid', hu', hv'⟩ := spells_append_iff.1 hs'
  exact ⟨mid', hu', next_of_spells hv hv' hnext, hall mid' rest' hv' hnext⟩

theorem OneAhead.bind {f : α × List Token → Except Stuck (β × List Token)} (h : OneAhead r)
    (hf : ∀ a, OneAhead fun ts => f (a, ts)) : OneAhead fun ts => r ts >>= f := by
  intro ts o rest ho
  dsimp only at ho ⊢
  cases hr : r ts with
  | error e =>
    rw [hr] at ho
    obtain ⟨rfl, rfl⟩ := error_eq_ends.1 ho
    obtain ⟨us, hs, hall⟩ := h _ (.error e.expected) _ hr
    refine ⟨us, hs, fun ts' rest' hs' hnext => ?_⟩
    rw [hall ts' rest' hs' hnext]
    rfl
  | ok y =>
    rw [hr] at ho
    obtain ⟨us, hs, hall⟩ := h _ (.ok y.1) _ hr
    obtain ⟨vs, hs, hthen⟩ := hs.then_ends (hf y.1) ho
    refine ⟨us ++ vs, hs, fun ts' rest' hs' hnext => ?_⟩
    obtain ⟨mid', hu', hmid, hend⟩ := hthen ts' rest' hs' hnext
    rw [hall ts' mid' hu' hmid]
    exact hend

theorem after?_eq_none_next : after? k ts = none ↔ next ts ≠ some k := by
  rw [after?_eq_none_iff]
  cases ts <;> simp [Clear, next]

theorem OneAhead.after {f g : Reader β} (hf : OneAhead f) (hg : OneAhead g) :
    OneAhead fun ts => match after? k ts with
      | some rest => f rest
      | none => g ts := by
  intro ts o rest ho
  dsimp only at ho ⊢
  split at ho
  · rename_i mid hk
    obtain ⟨vs, hs, hthen⟩ := (after?_eq_some_iff.1 hk).then_ends hf ho
    refine ⟨[k] ++ vs, hs, fun ts' rest' hs' hnext => ?_⟩
    obtain ⟨mid', hu', -, hend⟩ := hthen ts' rest' hs' hnext
    simp only [after?_eq_some_iff.2 hu', hend]
  · rename_i hk
    obtain ⟨us, hs, hall⟩ := hg _ _ _ ho
    refine ⟨us, hs, fun ts' rest' hs' hnext => ?_⟩
    have hk' : after? k ts' = none := by
      rw [after?_eq_none_next] at hk ⊢
      rwa [next_of_spells hs hs' hnext]
    simp only [hk', hall ts' rest' hs' hnext]

theorem OneAhead.expect {f : Reader β} (hf : OneAhead f) :
    OneAhead fun ts => Statement.expect k ts >>= f := by
  have hexpect : (fun ts => Statement.expect k ts >>= f) = fun ts =>
      match after? k ts with
      | some rest => f rest
      | none => ends (.error (.token k)) ts := by
    funext ts
    unfold Statement.expect
    cases after? k ts <;> rfl
  rw [hexpect]
  exact hf.after (oneAhead_ends _)

theorem oneAhead_optional (hr : OneAhead r) : OneAhead (optional k r) :=
  OneAhead.after (hr.bind fun x => oneAhead_ends (.ok (some x))) (oneAhead_ends (.ok none))

theorem oneAhead_equation (seen : List String) : OneAhead (equation seen) := by
  refine oneAhead_identifier.bind fun column => ?_
  by_cases hseen : column ∈ seen
  · simp only [hseen, if_true]
    exact oneAhead_ends (.error (.unassigned column))
  · simp only [hseen, if_false]
    refine OneAhead.expect ?_
    exact oneAhead_literal.bind fun value => oneAhead_ends (.ok (column, value))

theorem oneAhead_column : OneAhead column := by
  refine oneAhead_identifier.bind fun name => ?_
  refine oneAhead_dataType.bind fun type => ?_
  refine OneAhead.after ?_ (OneAhead.after ?_ ?_)
  · exact OneAhead.expect (oneAhead_ends (.ok _))
  · exact oneAhead_ends (.ok _)
  · exact oneAhead_ends (.ok _)

theorem oneAhead_join : OneAhead join := by
  refine oneAhead_identifier.bind fun table => ?_
  refine OneAhead.expect ?_
  refine oneAhead_identifier.bind fun left => ?_
  refine OneAhead.expect ?_
  exact oneAhead_identifier.bind fun right => oneAhead_ends (.ok _)

theorem oneAhead_absence : OneAhead absence :=
  OneAhead.expect (OneAhead.expect (oneAhead_ends (.ok ())))

theorem spells_unique (hu : Spells us ts rest) (hv : Spells vs ts rest) : us = vs := by
  obtain ⟨front, rfl, rfl⟩ := hu
  obtain ⟨front', hfront, rfl⟩ := hv
  rw [List.append_left_inj] at hfront
  rw [hfront]

theorem OneAhead.length_le (h : OneAhead r) {y : α × List Token} (hr : r ts = .ok y) :
    y.2.length ≤ ts.length := by
  obtain ⟨us, hs, -⟩ := h _ (.ok y.1) y.2 hr
  rw [hs.length_eq]
  omega

/-- A loop looks one token ahead if it does so for each amount of fuel, and the amount makes no
difference once there is enough of it. -/
theorem oneAhead_of_fuel {loop : Nat → Reader α} (hloop : ∀ n, OneAhead (loop n)) (c : Nat)
    (hfuel : ∀ {ts n m}, ts.length + c ≤ n → ts.length + c ≤ m → loop n ts = loop m ts) :
    OneAhead fun ts => loop (ts.length + c) ts := by
  intro ts o rest h
  obtain ⟨us, hs, -⟩ := hloop _ _ _ _ h
  refine ⟨us, hs, fun ts' rest' hs' hnext => ?_⟩
  have henough : loop (ts.length + ts'.length + c) ts = ends o rest :=
    (hfuel (by omega) (Nat.le_refl _)).trans h
  obtain ⟨vs, hv, hall⟩ := hloop _ _ _ _ henough
  obtain rfl := spells_unique hs hv
  exact (hfuel (Nat.le_refl _) (by omega)).trans (hall ts' rest' hs' hnext)

theorem oneAhead_itemsFrom {item : List α → Reader α} (hitem : ∀ done, OneAhead (item done))
    (n : Nat) (done : List α) : OneAhead (itemsFrom item n done) := by
  induction n generalizing done with
  | zero => exact oneAhead_ends (.ok done)
  | succ n ih =>
    refine (hitem done).bind fun x => ?_
    exact OneAhead.after (ih (done ++ [x])) (oneAhead_ends (.ok (done ++ [x])))

theorem itemsFrom_fuel {item : List α → Reader α} (hitem : ∀ done, OneAhead (item done))
    {n m : Nat} {done : List α} (hn : ts.length < n) (hm : ts.length < m) :
    itemsFrom item n done ts = itemsFrom item m done ts := by
  induction n generalizing m done ts with
  | zero => omega
  | succ n ih =>
    cases m with
    | zero => omega
    | succ m =>
      rw [itemsFrom, itemsFrom]
      cases hx : item done ts with
      | error e => rfl
      | ok y =>
        have hle := (hitem done).length_le hx
        simp only [bind, Except.bind]
        cases hk : after? .comma y.2 with
        | none => rfl
        | some more =>
          have hlt := (after?_eq_some_iff.1 hk).length_eq
          rw [List.length_singleton] at hlt
          exact ih (by omega) (by omega)

theorem oneAhead_items {item : List α → Reader α} (hitem : ∀ done, OneAhead (item done)) :
    OneAhead (items item) :=
  oneAhead_of_fuel (fun n => oneAhead_itemsFrom hitem n []) 1 (itemsFrom_fuel hitem)

theorem oneAhead_selection : OneAhead selection := by
  refine OneAhead.after (oneAhead_ends (.ok Selection.all)) ?_
  exact (oneAhead_items fun _ => oneAhead_identifier).bind fun names =>
    oneAhead_ends (.ok (Selection.named names))

theorem oneAhead_connective {f : Condition.Connective → Reader α} {g : Reader α}
    (hf : ∀ op, OneAhead (f op)) (hg : OneAhead g) :
    OneAhead fun ts => match connective? ts with
      | some (op, rest) => f op rest
      | none => g ts := by
  have hafter : (fun ts => match connective? ts with
      | some (op, rest) => f op rest
      | none => g ts) = fun ts => match after? (.keyword .and) ts with
        | some rest => f .and rest
        | none => match after? (.keyword .or) ts with
          | some rest => f .or rest
          | none => g ts := by
    funext ts
    rcases ts with _ | ⟨⟨k, p⟩, ts⟩
    · rfl
    · cases k with
      | keyword w => cases w <;> rfl
      | _ => rfl
  rw [hafter]
  exact OneAhead.after (hf .and) (OneAhead.after (hf .or) hg)

theorem chainFrom_succ (n : Nat) (ts : List Token) :
    chainFrom (n + 1) ts = match connective? ts with
      | some (op, rest) => equation [] rest >>= fun e => chainFrom n e.2 >>= fun l =>
        .ok ((op, .equals e.1.1 e.1.2) :: l.1, l.2)
      | none => .ok ([], ts) := by
  rw [chainFrom]
  cases connective? ts <;> rfl

theorem oneAhead_chainFrom (n : Nat) : OneAhead (chainFrom n) := by
  induction n with
  | zero => exact oneAhead_ends (.ok [])
  | succ n ih =>
    rw [funext (chainFrom_succ n)]
    refine oneAhead_connective (fun op => ?_) (oneAhead_ends (.ok []))
    refine (oneAhead_equation []).bind fun e => ?_
    dsimp only
    refine ih.bind fun l => ?_
    exact oneAhead_ends (.ok ((op, Condition.equals e.1 e.2) :: l))

theorem chainFrom_fuel {n m : Nat} (hn : ts.length ≤ n) (hm : ts.length ≤ m) :
    chainFrom n ts = chainFrom m ts := by
  induction n generalizing m ts with
  | zero =>
    obtain rfl := List.length_eq_zero_iff.1 (Nat.le_zero.1 hn)
    cases m <;> rfl
  | succ n ih =>
    cases hop : connective? ts with
    | none =>
      cases m with
      | zero => rw [chainFrom_succ, hop]; rfl
      | succ m => rw [chainFrom_succ, chainFrom_succ, hop]
    | some y =>
      have hlt := (connective?_eq_some_iff.1 hop).length_eq
      rw [List.length_singleton] at hlt
      cases m with
      | zero => omega
      | succ m =>
        rw [chainFrom_succ, chainFrom_succ, hop]
        cases he : equation [] y.2 with
        | error e => simp only [he]; rfl
        | ok e =>
          have hle := (oneAhead_equation []).length_le he
          have hsame : chainFrom n e.2 = chainFrom m e.2 := ih (by omega) (by omega)
          simp only [he, bind, Except.bind, hsame]

theorem oneAhead_condition : OneAhead condition := by
  have hchain := oneAhead_of_fuel oneAhead_chainFrom 0 chainFrom_fuel
  refine (oneAhead_equation []).bind fun e => ?_
  exact hchain.bind fun l => oneAhead_ends (.ok _)

theorem oneAhead_selectBody : OneAhead selectBody := by
  refine oneAhead_selection.bind fun chosen => ?_
  refine OneAhead.expect ?_
  refine oneAhead_identifier.bind fun table => ?_
  refine (oneAhead_optional oneAhead_join).bind fun joined => ?_
  refine (oneAhead_optional oneAhead_condition).bind fun cond => ?_
  exact (oneAhead_optional oneAhead_limit).bind fun most => oneAhead_ends (.ok _)

theorem oneAhead_insertBody : OneAhead insertBody := by
  refine OneAhead.expect ?_
  refine oneAhead_identifier.bind fun table => ?_
  refine OneAhead.expect (OneAhead.expect ?_)
  refine (oneAhead_items fun _ => oneAhead_literal).bind fun row => ?_
  exact OneAhead.expect (oneAhead_ends (.ok _))

theorem oneAhead_updateBody : OneAhead updateBody := by
  refine oneAhead_identifier.bind fun table => ?_
  refine OneAhead.expect ?_
  refine (oneAhead_items fun done => oneAhead_equation (done.map (·.1))).bind fun changes => ?_
  refine OneAhead.expect ?_
  exact oneAhead_condition.bind fun cond => oneAhead_ends (.ok _)

theorem oneAhead_deleteBody : OneAhead deleteBody := by
  refine OneAhead.expect ?_
  refine oneAhead_identifier.bind fun table => ?_
  refine OneAhead.expect ?_
  exact oneAhead_condition.bind fun cond => oneAhead_ends (.ok _)

theorem oneAhead_createBody : OneAhead createBody := by
  refine OneAhead.expect ?_
  refine (oneAhead_optional oneAhead_absence).bind fun clause => ?_
  refine oneAhead_identifier.bind fun table => ?_
  refine OneAhead.expect ?_
  refine (oneAhead_items fun _ => oneAhead_column).bind fun cols => ?_
  exact OneAhead.expect (oneAhead_ends (.ok _))

/-- The body of a statement, by the word in front of it. -/
theorem statement_eq : statement = fun ts =>
    match after? (.keyword .select) ts with
    | some rest => selectBody rest
    | none => match after? (.keyword .insert) ts with
      | some rest => insertBody rest
      | none => match after? (.keyword .update) ts with
        | some rest => updateBody rest
        | none => match after? (.keyword .delete) ts with
          | some rest => deleteBody rest
          | none => match after? (.keyword .create) ts with
            | some rest => createBody rest
            | none => ends (.error .statement) ts := by
  funext ts
  rcases ts with _ | ⟨⟨k, p⟩, ts⟩
  · rfl
  · cases k with
    | keyword w => cases w <;> rfl
    | _ => rfl

theorem oneAhead_statement : OneAhead statement := by
  rw [statement_eq]
  exact oneAhead_selectBody.after <| oneAhead_insertBody.after <| oneAhead_updateBody.after <|
    oneAhead_deleteBody.after <| oneAhead_createBody.after <| oneAhead_ends _

/-- Where a whole statement is stuck, it is so whatever comes behind the next token. -/
theorem whole_stuck {x : Expectation} (h : whole ts = .error ⟨x, rest⟩) :
    ∃ us, Spells us ts rest ∧ ∀ ts' rest', Spells us ts' rest' → next rest' = next rest →
      whole ts' = .error ⟨x, rest'⟩ := by
  rcases Stuck.bind_eq_error_iff.1 h with h | ⟨⟨s, mid⟩, hs, h⟩
  · obtain ⟨us, hus, hall⟩ := oneAhead_statement _ (.error x) _ h
    refine ⟨us, hus, fun ts' rest' hs' hnext => ?_⟩
    exact Stuck.bind_eq_error_iff.2 (.inl (hall ts' rest' hs' hnext))
  · obtain ⟨us, hus, hall⟩ := oneAhead_statement _ (.ok s) _ hs
    dsimp only at h
    split at h
    · cases h
    · rename_i hmid
      cases h
      refine ⟨us, hus, fun ts' rest' hs' hnext => ?_⟩
      refine Stuck.bind_eq_error_iff.2 (.inr ⟨(s, rest'), hall ts' rest' hs' hnext, ?_⟩)
      cases rest' with
      | nil =>
        rw [List.isEmpty_iff, ← next_eq_none, ← hnext] at hmid
        exact absurd rfl hmid
      | cons t rest' => rfl

end Statement
end RelStore
