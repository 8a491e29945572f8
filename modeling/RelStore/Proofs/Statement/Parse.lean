import RelStore.Proofs.Statement.Conditions

/-! Statements are read exactly as the grammar derives them. -/
namespace RelStore
namespace Statement

open Grammar

variable {us no : List Token.Kind} {ts rest : List Token}

/-- Assignments fit one behind the other if their columns are different. -/
theorem fits_distinct {done xs : List (String × Value)} (hd : (done.map Prod.fst).Nodup) :
    Fits (fun done e => e.1 ∉ done.map Prod.fst) done xs ↔ ((done ++ xs).map Prod.fst).Nodup := by
  induction xs generalizing done with
  | nil => simpa [Fits] using hd
  | cons x xs ih =>
    have hassoc : done ++ x :: xs = (done ++ [x]) ++ xs := by simp
    have hsnoc : ((done ++ [x]).map Prod.fst).Nodup ↔ x.1 ∉ done.map Prod.fst := by
      rw [List.map_append, List.nodup_append]
      constructor
      · rintro ⟨-, -, h⟩ hx
        exact h _ hx _ (by simp) rfl
      · intro hx
        refine ⟨hd, by simp, ?_⟩
        rintro a ha b hb rfl
        simp only [List.map_cons, List.map_nil, List.mem_singleton] at hb
        exact hx (hb ▸ ha)
    rw [hassoc]
    constructor
    · rintro ⟨hx, hxs⟩
      exact (ih (hsnoc.2 hx)).1 hxs
    · intro h
      have hprefix : ((done ++ [x]).map Prod.fst).Nodup := by
        rw [List.map_append] at h
        exact (List.nodup_append.1 h).1
      exact ⟨hsnoc.1 hprefix, (ih hprefix).2 h⟩

/-- An equation for a column that none of `done` is for. -/
theorem reads_unseen (done : List (String × Value)) : Reads (equation (done.map Prod.fst))
    (fun e us => Equation e us ∧ e.1 ∉ done.map Prod.fst) [] := by
  apply Reads.of_iff
  intro ts e rest
  rw [equation_eq_ok_iff]
  constructor
  · rintro ⟨⟨us, he, hs⟩, hd⟩
    exact ⟨us, ⟨he, hd⟩, hs⟩
  · rintro ⟨us, ⟨he, hd⟩, hs⟩
    exact ⟨⟨us, he, hs⟩, hd⟩

theorem reads_assignments :
    Reads assignments (fun changes us => Series Equation changes us ∧ (changes.map Prod.fst).Nodup)
      [.comma] := by
  refine (reads_items reads_unseen (by simp)).congr fun changes us => and_congr_right fun _ => ?_
  exact fits_distinct List.nodup_nil

theorem reads_column : Reads column ColumnEntry [.keyword .primary, .keyword .unique] where
  sound := by
    intro ts c rest h
    obtain ⟨⟨name, ts₁⟩, hname, h⟩ := Stuck.bind_eq_ok_iff.1 h
    obtain ⟨⟨type, ts₂⟩, htype, h⟩ := Stuck.bind_eq_ok_iff.1 h
    have hname := identifier_eq_ok_iff.1 hname
    obtain ⟨us, hus, hs⟩ := dataType_eq_ok_iff.1 htype
    dsimp only at h
    split at h
    · rename_i ts₃ hprimary
      obtain ⟨ts₄, hkey, h⟩ := Stuck.bind_eq_ok_iff.1 h
      cases h
      have hend := (after?_eq_some_iff.1 hprimary).cons (expect_eq_ok_iff.1 hkey)
      exact ⟨_, .primary hus, (hname.cons hs).append hend⟩
    · split at h
      · rename_i ts₃ hunique
        cases h
        exact ⟨_, .unique hus, (hname.cons hs).append (after?_eq_some_iff.1 hunique)⟩
      · cases h
        exact ⟨_, .plain hus, hname.cons hs⟩
  complete := by
    intro ts c rest us h hs hc
    cases h with
    | plain htype =>
      obtain ⟨ts₁, hname, hs⟩ := spells_cons_iff.1 hs
      have hprimary : after? (.keyword .primary) rest = none :=
        after?_eq_none_iff.2 (hc.mono (by simp))
      have hunique : after? (.keyword .unique) rest = none :=
        after?_eq_none_iff.2 (hc.mono (by simp))
      simp only [column, identifier_eq_ok_iff.2 hname, dataType_eq_ok_iff.2 ⟨_, htype, hs⟩,
        bind, Except.bind, hprimary, hunique]
      rfl
    | primary htype =>
      obtain ⟨ts₁, hs, hend⟩ := spells_append_iff.1 hs
      obtain ⟨ts₂, hname, hs⟩ := spells_cons_iff.1 hs
      obtain ⟨ts₃, hprimary, hkey⟩ := spells_cons_iff.1 hend
      simp only [column, identifier_eq_ok_iff.2 hname, dataType_eq_ok_iff.2 ⟨_, htype, hs⟩,
        bind, Except.bind, after?_eq_some_iff.2 hprimary, expect_eq_ok_iff.2 hkey]
      rfl
    | unique htype =>
      obtain ⟨ts₁, hs, hunique⟩ := spells_append_iff.1 hs
      obtain ⟨ts₂, hname, hs⟩ := spells_cons_iff.1 hs
      have hprimary : after? (.keyword .primary) ts₁ = none :=
        after?_eq_none_iff.2 (.of_spells hunique (by simp))
      simp only [column, identifier_eq_ok_iff.2 hname, dataType_eq_ok_iff.2 ⟨_, htype, hs⟩,
        bind, Except.bind, hprimary, after?_eq_some_iff.2 hunique]
      rfl

theorem reads_selection : Reads selection Choice [.comma] where
  sound := by
    intro ts chosen rest h
    unfold selection at h
    split at h
    · rename_i hstar
      cases h
      exact ⟨_, .all, after?_eq_some_iff.1 hstar⟩
    · obtain ⟨⟨names, ts₁⟩, hnames, h⟩ := Stuck.bind_eq_ok_iff.1 h
      cases h
      obtain ⟨us, hnames, hs⟩ := (reads_series reads_identifier List.not_mem_nil).sound hnames
      exact ⟨us, .named hnames, hs⟩
  complete := by
    intro ts chosen rest us h hs hc
    cases h with
    | all => simp only [selection, after?_eq_some_iff.2 hs]
    | @named names us h =>
      have hstar : after? .star ts = none := by
        apply after?_eq_none_iff.2
        cases h with
        | one h =>
          cases h
          exact .of_spells hs (by simp)
        | more h _ =>
          cases h
          exact .of_spells hs (by simp)
      have hnames := (reads_series reads_identifier List.not_mem_nil).complete h hs hc
      simp only [selection, hstar, Statement.names, hnames]
      rfl

theorem reads_join : Reads join Joined no := by
  apply Reads.of_iff
  intro ts j rest
  constructor
  · intro h
    obtain ⟨⟨table, ts₁⟩, htable, h⟩ := Stuck.bind_eq_ok_iff.1 h
    obtain ⟨ts₂, hon, h⟩ := Stuck.bind_eq_ok_iff.1 h
    obtain ⟨⟨left, ts₃⟩, hleft, h⟩ := Stuck.bind_eq_ok_iff.1 h
    obtain ⟨ts₄, hequal, h⟩ := Stuck.bind_eq_ok_iff.1 h
    obtain ⟨⟨right, ts₅⟩, hright, h⟩ := Stuck.bind_eq_ok_iff.1 h
    cases h
    have hend := (expect_eq_ok_iff.1 hequal).cons (identifier_eq_ok_iff.1 hright)
    have hlast := (expect_eq_ok_iff.1 hon).cons ((identifier_eq_ok_iff.1 hleft).cons hend)
    exact ⟨_, .mk, (identifier_eq_ok_iff.1 htable).cons hlast⟩
  · rintro ⟨us, ⟨⟩, hs⟩
    obtain ⟨ts₁, htable, hs⟩ := spells_cons_iff.1 hs
    obtain ⟨ts₂, hon, hs⟩ := spells_cons_iff.1 hs
    obtain ⟨ts₃, hleft, hs⟩ := spells_cons_iff.1 hs
    obtain ⟨ts₄, hequal, hright⟩ := spells_cons_iff.1 hs
    simp only [join, identifier_eq_ok_iff.2 htable, expect_eq_ok_iff.2 hon,
      identifier_eq_ok_iff.2 hleft, expect_eq_ok_iff.2 hequal, identifier_eq_ok_iff.2 hright,
      bind, Except.bind]
    rfl

def absence : Reader Unit := fun ts => do
  let ts ← expect (.keyword .not) ts
  let ts ← expect (.keyword .exists) ts
  pure ((), ts)

theorem reads_absence : Reads absence Absence no := by
  apply Reads.of_iff
  intro ts u rest
  constructor
  · intro h
    obtain ⟨ts₁, hnot, h⟩ := Stuck.bind_eq_ok_iff.1 h
    obtain ⟨ts₂, hexists, h⟩ := Stuck.bind_eq_ok_iff.1 h
    cases h
    exact ⟨_, .mk, (expect_eq_ok_iff.1 hnot).cons (expect_eq_ok_iff.1 hexists)⟩
  · rintro ⟨us, ⟨⟩, hs⟩
    obtain ⟨ts₁, hnot, hexists⟩ := spells_cons_iff.1 hs
    simp only [absence, expect_eq_ok_iff.2 hnot, expect_eq_ok_iff.2 hexists, bind, Except.bind]
    rfl

/-- Whether a part that may be missing is there or not, only its own sign and what may
come behind it come next. -/
theorem clear_of_optional {α : Type} {k : Token.Kind} {R : Rule α} {x : Option α}
    (h : Optional k R x us) (hs : Spells us ts rest) (hk : k ∉ no) (hc : Clear no rest) :
    Clear no ts := by
  cases h with
  | absent =>
    obtain rfl := spells_nil_iff.1 hs
    exact hc
  | present h => exact .of_spells hs hk

theorem reads_columns :
    Reads columns (Series ColumnEntry) [.comma, .keyword .primary, .keyword .unique] :=
  reads_series reads_column (by simp)

theorem reads_literals : Reads literals (Series Literal) [.comma] :=
  reads_series reads_literal List.not_mem_nil

theorem reads_joinPart : Reads (optional (.keyword .join) join)
    (Optional (.keyword .join) Joined) [.keyword .join] := reads_optional reads_join

theorem reads_conditionPart : Reads (optional (.keyword .where) condition)
    (Optional (.keyword .where) Disjunction) (.keyword .where :: connectives) :=
  reads_optional reads_condition

theorem reads_limitPart : Reads (optional (.keyword .limit) limit)
    (Optional (.keyword .limit) Count) [.keyword .limit] :=
  reads_optional (.of_iff limit_eq_ok_iff)

theorem reads_absencePart : Reads (optional (.keyword .if) absence)
    (Optional (.keyword .if) Absence) [.keyword .if] := reads_optional reads_absence

variable {s : Statement}

theorem selectBody_sound (h : selectBody ts = .ok (s, rest)) :
    ∃ us, Derives s (.keyword .select :: us) ∧ Spells us ts rest := by
  obtain ⟨⟨chosen, ts₁⟩, hchosen, h⟩ := Stuck.bind_eq_ok_iff.1 h
  obtain ⟨ts₂, hfrom, h⟩ := Stuck.bind_eq_ok_iff.1 h
  obtain ⟨⟨table, ts₃⟩, htable, h⟩ := Stuck.bind_eq_ok_iff.1 h
  obtain ⟨⟨joined, ts₄⟩, hjoined, h⟩ := Stuck.bind_eq_ok_iff.1 h
  obtain ⟨⟨cond, ts₅⟩, hcond, h⟩ := Stuck.bind_eq_ok_iff.1 h
  obtain ⟨⟨most, ts₆⟩, hmost, h⟩ := Stuck.bind_eq_ok_iff.1 h
  cases h
  obtain ⟨us, hu, hus⟩ := reads_selection.sound hchosen
  obtain ⟨vs, hv, hvs⟩ := reads_joinPart.sound hjoined
  obtain ⟨ws, hw, hws⟩ := reads_conditionPart.sound hcond
  obtain ⟨xs, hx, hxs⟩ := reads_limitPart.sound hmost
  have htable := (expect_eq_ok_iff.1 hfrom).cons ((identifier_eq_ok_iff.1 htable).cons hvs)
  exact ⟨_, .select hu hv hw hx, ((hus.append htable).append hws).append hxs⟩

theorem insertBody_sound (h : insertBody ts = .ok (s, rest)) :
    ∃ us, Derives s (.keyword .insert :: us) ∧ Spells us ts rest := by
  obtain ⟨ts₁, hinto, h⟩ := Stuck.bind_eq_ok_iff.1 h
  obtain ⟨⟨table, ts₂⟩, htable, h⟩ := Stuck.bind_eq_ok_iff.1 h
  obtain ⟨ts₃, hvalues, h⟩ := Stuck.bind_eq_ok_iff.1 h
  obtain ⟨ts₄, hleft, h⟩ := Stuck.bind_eq_ok_iff.1 h
  obtain ⟨⟨row, ts₅⟩, hrow, h⟩ := Stuck.bind_eq_ok_iff.1 h
  obtain ⟨ts₆, hright, h⟩ := Stuck.bind_eq_ok_iff.1 h
  cases h
  obtain ⟨us, hu, hus⟩ := reads_literals.sound hrow
  have hvalues := (expect_eq_ok_iff.1 hvalues).cons ((expect_eq_ok_iff.1 hleft).cons hus)
  have htable := (expect_eq_ok_iff.1 hinto).cons ((identifier_eq_ok_iff.1 htable).cons hvalues)
  exact ⟨_, .insert hu, htable.append (expect_eq_ok_iff.1 hright)⟩

theorem updateBody_sound (h : updateBody ts = .ok (s, rest)) :
    ∃ us, Derives s (.keyword .update :: us) ∧ Spells us ts rest := by
  obtain ⟨⟨table, ts₁⟩, htable, h⟩ := Stuck.bind_eq_ok_iff.1 h
  obtain ⟨ts₂, hset, h⟩ := Stuck.bind_eq_ok_iff.1 h
  obtain ⟨⟨changes, ts₃⟩, hchanges, h⟩ := Stuck.bind_eq_ok_iff.1 h
  obtain ⟨ts₄, hwhere, h⟩ := Stuck.bind_eq_ok_iff.1 h
  obtain ⟨⟨cond, ts₅⟩, hcond, h⟩ := Stuck.bind_eq_ok_iff.1 h
  cases h
  obtain ⟨us, ⟨hu, hd⟩, hus⟩ := reads_assignments.sound hchanges
  obtain ⟨vs, hv, hvs⟩ := reads_condition.sound hcond
  have htable := (identifier_eq_ok_iff.1 htable).cons ((expect_eq_ok_iff.1 hset).cons hus)
  exact ⟨_, .update hu hd hv, htable.append ((expect_eq_ok_iff.1 hwhere).cons hvs)⟩

theorem deleteBody_sound (h : deleteBody ts = .ok (s, rest)) :
    ∃ us, Derives s (.keyword .delete :: us) ∧ Spells us ts rest := by
  obtain ⟨ts₁, hfrom, h⟩ := Stuck.bind_eq_ok_iff.1 h
  obtain ⟨⟨table, ts₂⟩, htable, h⟩ := Stuck.bind_eq_ok_iff.1 h
  obtain ⟨ts₃, hwhere, h⟩ := Stuck.bind_eq_ok_iff.1 h
  obtain ⟨⟨cond, ts₄⟩, hcond, h⟩ := Stuck.bind_eq_ok_iff.1 h
  cases h
  obtain ⟨us, hu, hus⟩ := reads_condition.sound hcond
  have htable := (identifier_eq_ok_iff.1 htable).cons ((expect_eq_ok_iff.1 hwhere).cons hus)
  exact ⟨_, .delete hu, (expect_eq_ok_iff.1 hfrom).cons htable⟩

theorem createBody_sound (h : createBody ts = .ok (s, rest)) :
    ∃ us, Derives s (.keyword .create :: us) ∧ Spells us ts rest := by
  obtain ⟨ts₁, htable, h⟩ := Stuck.bind_eq_ok_iff.1 h
  obtain ⟨⟨clause, ts₂⟩, hclause, h⟩ := Stuck.bind_eq_ok_iff.1 h
  obtain ⟨⟨name, ts₃⟩, hname, h⟩ := Stuck.bind_eq_ok_iff.1 h
  obtain ⟨ts₄, hleft, h⟩ := Stuck.bind_eq_ok_iff.1 h
  obtain ⟨⟨cols, ts₅⟩, hcols, h⟩ := Stuck.bind_eq_ok_iff.1 h
  obtain ⟨ts₆, hright, h⟩ := Stuck.bind_eq_ok_iff.1 h
  cases h
  obtain ⟨us, hu, hus⟩ := reads_absencePart.sound hclause
  obtain ⟨vs, hv, hvs⟩ := reads_columns.sound hcols
  have hname := (identifier_eq_ok_iff.1 hname).cons ((expect_eq_ok_iff.1 hleft).cons hvs)
  have hfront := ((expect_eq_ok_iff.1 htable).cons hus).append hname
  exact ⟨_, .create hu hv, hfront.append (expect_eq_ok_iff.1 hright)⟩

theorem statement_sound (h : statement ts = .ok (s, rest)) :
    ∃ us, Derives s us ∧ Spells us ts rest := by
  have hbegin : ∀ {w : Keyword} {p : Token.Position} {ts : List Token},
      (∃ us, Derives s (.keyword w :: us) ∧ Spells us ts rest) →
        ∃ us, Derives s us ∧ Spells us (⟨.keyword w, p⟩ :: ts) rest := by
    rintro w p ts ⟨us, hd, hs⟩
    exact ⟨_, hd, (spells_singleton_iff.2 ⟨p, rfl⟩).cons hs⟩
  unfold statement at h
  split at h
  · exact hbegin (selectBody_sound h)
  · exact hbegin (insertBody_sound h)
  · exact hbegin (updateBody_sound h)
  · exact hbegin (deleteBody_sound h)
  · exact hbegin (createBody_sound h)
  · cases h

theorem statement_complete (h : Derives s us) (hs : Spells us ts []) :
    statement ts = .ok (s, []) := by
  cases h with
  | @select chosen us table joined vs cond ws most xs hu hv hw hx =>
    obtain ⟨ts₃, hs, hxs⟩ := spells_append_iff.1 hs
    obtain ⟨ts₂, hs, hws⟩ := spells_append_iff.1 hs
    obtain ⟨ts₁, hs, htable⟩ := spells_append_iff.1 hs
    obtain ⟨ts₀, hselect, hus⟩ := spells_cons_iff.1 hs
    obtain ⟨p, rfl⟩ := spells_singleton_iff.1 hselect
    obtain ⟨ts₄, hfrom, hs⟩ := spells_cons_iff.1 htable
    obtain ⟨ts₅, hname, hvs⟩ := spells_cons_iff.1 hs
    have hlimit := reads_limitPart.complete hx hxs clear_nil
    have hcond := reads_conditionPart.complete hw hws
      (clear_of_optional hx hxs (by simp [connectives]) clear_nil)
    have hjoin := reads_joinPart.complete hv hvs
      (clear_of_optional hw hws (by simp) (clear_of_optional hx hxs (by simp) clear_nil))
    have hchosen := reads_selection.complete hu hus (.of_spells htable (by simp))
    show selectBody ts₀ = _
    simp only [selectBody, hchosen, expect_eq_ok_iff.2 hfrom, identifier_eq_ok_iff.2 hname, hjoin,
      hcond, hlimit, bind, Except.bind]
    rfl
  | @insert table row us hu =>
    obtain ⟨ts₁, hs, hright⟩ := spells_append_iff.1 hs
    obtain ⟨ts₀, hinsert, hbody⟩ := spells_cons_iff.1 hs
    obtain ⟨p, rfl⟩ := spells_singleton_iff.1 hinsert
    obtain ⟨ts₂, hinto, hs⟩ := spells_cons_iff.1 hbody
    obtain ⟨ts₃, hname, hs⟩ := spells_cons_iff.1 hs
    obtain ⟨ts₄, hvalues, hs⟩ := spells_cons_iff.1 hs
    obtain ⟨ts₅, hleft, hus⟩ := spells_cons_iff.1 hs
    have hrow := reads_literals.complete hu hus (.of_spells hright (by simp))
    show insertBody ts₀ = _
    simp only [insertBody, expect_eq_ok_iff.2 hinto, identifier_eq_ok_iff.2 hname,
      expect_eq_ok_iff.2 hvalues, expect_eq_ok_iff.2 hleft, hrow, expect_eq_ok_iff.2 hright,
      bind, Except.bind]
    rfl
  | @update table changes us cond vs hu hd hv =>
    obtain ⟨ts₁, hs, hs'⟩ := spells_append_iff.1 hs
    obtain ⟨ts₀, hupdate, hbody⟩ := spells_cons_iff.1 hs
    obtain ⟨p, rfl⟩ := spells_singleton_iff.1 hupdate
    obtain ⟨ts₂, hname, hs⟩ := spells_cons_iff.1 hbody
    obtain ⟨ts₃, hset, hus⟩ := spells_cons_iff.1 hs
    have hchanges := reads_assignments.complete ⟨hu, hd⟩ hus (.of_spells hs' (by simp))
    obtain ⟨ts₄, hwhere, hvs⟩ := spells_cons_iff.1 hs'
    have hcond := reads_condition.complete hv hvs clear_nil
    show updateBody ts₀ = _
    simp only [updateBody, identifier_eq_ok_iff.2 hname, expect_eq_ok_iff.2 hset, hchanges,
      expect_eq_ok_iff.2 hwhere, hcond, bind, Except.bind]
    rfl
  | @delete table cond us hu =>
    obtain ⟨ts₀, hdelete, hbody⟩ := spells_cons_iff.1 hs
    obtain ⟨p, rfl⟩ := spells_singleton_iff.1 hdelete
    obtain ⟨ts₁, hfrom, hs⟩ := spells_cons_iff.1 hbody
    obtain ⟨ts₂, hname, hs⟩ := spells_cons_iff.1 hs
    obtain ⟨ts₃, hwhere, hus⟩ := spells_cons_iff.1 hs
    have hcond := reads_condition.complete hu hus clear_nil
    show deleteBody ts₀ = _
    simp only [deleteBody, expect_eq_ok_iff.2 hfrom, identifier_eq_ok_iff.2 hname,
      expect_eq_ok_iff.2 hwhere, hcond, bind, Except.bind]
    rfl
  | @create clause us name cols vs hu hv =>
    obtain ⟨ts₁, hs, hright⟩ := spells_append_iff.1 hs
    obtain ⟨ts₂, hs, hs'⟩ := spells_append_iff.1 hs
    obtain ⟨ts₀, hcreate, hbody⟩ := spells_cons_iff.1 hs
    obtain ⟨p, rfl⟩ := spells_singleton_iff.1 hcreate
    obtain ⟨ts₃, htable, hus⟩ := spells_cons_iff.1 hbody
    have hclause := reads_absencePart.complete hu hus (.of_spells hs' (by simp))
    obtain ⟨ts₄, hname, hs'⟩ := spells_cons_iff.1 hs'
    obtain ⟨ts₅, hleft, hvs⟩ := spells_cons_iff.1 hs'
    have hcols := reads_columns.complete hv hvs (.of_spells hright (by simp))
    show createBody ts₀ = _
    refine Stuck.bind_eq_ok_iff.2 ⟨ts₃, expect_eq_ok_iff.2 htable, ?_⟩
    refine Stuck.bind_eq_ok_iff.2 ⟨(clause, ts₂), hclause, ?_⟩
    simp only [identifier_eq_ok_iff.2 hname, expect_eq_ok_iff.2 hleft, hcols,
      expect_eq_ok_iff.2 hright, bind, Except.bind]
    rfl

theorem whole_eq_ok_iff : whole ts = .ok s ↔ Derives s (ts.map Token.kind) := by
  constructor
  · intro h
    obtain ⟨⟨s', rest⟩, hs, h⟩ := Stuck.bind_eq_ok_iff.1 h
    dsimp only at h
    split at h
    · rename_i hrest
      cases h
      rw [List.isEmpty_iff] at hrest
      subst hrest
      obtain ⟨us, hd, hs⟩ := statement_sound hs
      rw [spells_end_iff.1 hs]
      exact hd
    · cases h
  · intro h
    simp only [whole, statement_complete h (spells_end_iff.2 rfl), bind, Except.bind]
    rfl

theorem proper_append {ts back : List Token} {e : Token} (he : e.kind = .endOfInput) :
    proper (ts ++ e :: back) = proper ts := by
  unfold proper
  induction ts with
  | nil => simp [he]
  | cons t ts ih =>
    rw [List.cons_append, List.takeWhile_cons, List.takeWhile_cons, ih]

theorem ending_append {ts back : List Token} {e : Token} (he : e.kind = .endOfInput) :
    ending (ts ++ e :: back) = ending (ts ++ [e]) := by
  have hfind : ∀ back', (ts ++ e :: back').find? (fun t => t.kind == .endOfInput) =
      (ts.find? fun t => t.kind == .endOfInput).or (some e) := by
    intro back'
    rw [List.find?_append, List.find?_cons_of_pos (by simpa using he)]
  unfold ending
  rw [hfind, hfind]
  cases ts.find? fun t => t.kind == .endOfInput <;> rfl

theorem ofTokens_ok_iff_derives :
    ofTokens ts = .ok s ↔ Derives s ((proper ts).map Token.kind) := by
  rw [← whole_eq_ok_iff, ofTokens]
  cases whole (proper ts) <;> simp

/-- A list of tokens is a statement exactly if the grammar derives it from the tokens before
the first end of input, and then it is that one statement; what stands behind the first end
of input makes no difference. Any other list of tokens is a misreading. -/
theorem ofTokens_eq_ok_iff (ts : List Token) :
    (∀ s, ofTokens ts = .ok s ↔
      Derives s ((ts.takeWhile fun t => t.kind != .endOfInput).map Token.kind)) ∧
    (∀ us s s', Derives s us → Derives s' us → s = s') ∧
    (∀ e back, e.kind = .endOfInput → ofTokens (ts ++ e :: back) = ofTokens (ts ++ [e])) ∧
    ((∀ s, ¬ Derives s ((ts.takeWhile fun t => t.kind != .endOfInput).map Token.kind)) →
      ∃ e, ofTokens ts = .error e ∧ e.errorClass = .parse) := by
  refine ⟨fun _ => ofTokens_ok_iff_derives, ?_, ?_, ?_⟩
  · intro us s s' h h'
    -- tokens of these kinds are read as both statements
    have hkinds : us = (us.map fun k => (⟨k, .start⟩ : Token)).map Token.kind := by
      rw [List.map_map]
      exact (List.map_id us).symm
    rw [hkinds] at h h'
    have hs := (whole_eq_ok_iff.2 h).symm.trans (whole_eq_ok_iff.2 h')
    exact Except.ok.inj hs
  · intro e back he
    rw [ofTokens, ofTokens, proper_append he, proper_append he, ending_append he]
  · intro hnone
    unfold ofTokens
    cases hw : whole (proper ts) with
    | ok s => exact absurd (whole_eq_ok_iff.1 hw) (hnone s)
    | error stuck => exact ⟨_, rfl, rfl⟩

/-- The tokens of a deletion with numerals that no text has, the end of input in the middle,
and more behind it. -/
def deletion : List Token :=
  [.keyword .delete, .keyword .from, .identifier "t", .keyword .where,
    .identifier "a", .equal, .number "+7", .keyword .or,
    .identifier "b", .equal, .text "x", .keyword .and,
    .identifier "c", .equal, .number "-0"].map fun k => ⟨k, .start⟩

def deletionMeant : Statement :=
  .delete "t" (.or (.equals "a" (.int 7)) (.and (.equals "b" (.text "x")) (.equals "c" (.int 0))))

theorem ofTokens_eq_ok_iff_deletion :
    ofTokens (deletion ++ ⟨.endOfInput, .start⟩ :: deletion) = .ok deletionMeant ∧
      ∀ s, Derives s (deletion.map Token.kind) → s = deletionMeant := by
  have hseven : Text.IsInteger "+7".toList (7 : Int64).toInt :=
    .plus ⟨by decide, List.all_eq_true.1 rfl, rfl⟩
  have hzero : Text.IsInteger "-0".toList (0 : Int64).toInt :=
    .minus ⟨by decide, List.all_eq_true.1 rfl, rfl⟩
  have hleft : Conjunction (.equals "a" (.int 7)) _ := .one (.equation (.mk (.int hseven)))
  have hright : Conjunction (.and (.equals "b" (.text "x")) (.equals "c" (.int 0))) _ :=
    .and (.one (.equation (.mk .text))) (.equation (.mk (.int hzero)))
  have hderives : Derives deletionMeant (deletion.map Token.kind) :=
    .delete (.or (.one hleft) hright)
  obtain ⟨-, hunique, hback, -⟩ := ofTokens_eq_ok_iff deletion
  constructor
  · rw [hback _ _ rfl]
    exact ((ofTokens_eq_ok_iff (deletion ++ [⟨.endOfInput, .start⟩])).1 _).2 hderives
  · exact fun s hs => hunique _ _ _ hs hderives

end Statement
end RelStore
