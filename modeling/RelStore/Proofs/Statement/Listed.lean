import RelStore.Proofs.Statement.Rendering

/-! The star of a query. Names can stand in its place, whatever follows. -/
namespace RelStore
namespace Grammar
variable {q : Query} {us : List Token.Kind} {names : List String}

/-- Names with commas between them. -/
def listed : List String → List Token.Kind
  | [] => []
  | [name] => [.identifier name]
  | name :: rest => .identifier name :: .comma :: listed rest

theorem series_listed : ∀ {names : List String}, names ≠ [] → Series Name names (listed names)
  | [], h => absurd rfl h
  | [_], _ => .one .identifier
  | _ :: _ :: _, _ => .more .identifier (series_listed (List.cons_ne_nil _ _))

theorem ne_endOfInput_of_mem_listed {k : Token.Kind} (hk : k ∈ listed names) :
    (k != .endOfInput) = true := by
  induction names using listed.induct with
  | case1 => cases hk
  | case2 name =>
    cases List.mem_singleton.1 hk
    rfl
  | case3 name rest hrest ih =>
    rw [listed.eq_3 name rest hrest] at hk
    rcases List.mem_cons.1 hk with rfl | hk
    · rfl
    rcases List.mem_cons.1 hk with rfl | hk
    · rfl
    · exact ih hk

/-- In the tokens of a query for all columns, names can stand for the star. -/
theorem derives_listed (hall : q.selection = .all)
    (h : Derives (.select q) (.keyword .select :: .star :: us)) (hnames : names ≠ []) :
    Derives (.select { q with selection := .named names })
      (.keyword .select :: listed names ++ us) := by
  obtain ⟨selection, table, join, condition, limit⟩ := q
  obtain rfl : selection = .all := hall
  generalize hkinds : Token.Kind.keyword .select :: .star :: us = kinds at h
  cases h with
  | select hu hv hw hx =>
    cases hu with
    | all =>
      obtain rfl : us = _ := by simpa using hkinds
      simpa using Derives.select (.named (series_listed hnames)) hv hw hx

end Grammar

namespace Statement

theorem ofTokens_listed {ts ts' : List Token} {us : List Token.Kind} {q : Query}
    {names : List String} (hall : q.selection = .all) (hnames : names ≠ [])
    (hts : ts.map Token.kind = .keyword .select :: .star :: us)
    (hts' : ts'.map Token.kind = .keyword .select :: Grammar.listed names ++ us)
    (h : ofTokens ts = .ok (.select q)) :
    ofTokens ts' = .ok (.select { q with selection := .named names }) := by
  rw [ofTokens_ok_iff_derives, map_kind_proper, hts] at h
  rw [ofTokens_ok_iff_derives, map_kind_proper, hts']
  have hproper : ∀ k ∈ Token.Kind.keyword .select :: Grammar.listed names,
      (k != .endOfInput) = true :=
    List.forall_mem_cons.2 ⟨rfl, fun k hk => Grammar.ne_endOfInput_of_mem_listed hk⟩
  rw [List.takeWhile_append_of_pos hproper]
  exact Grammar.derives_listed hall h hnames

end Statement
end RelStore
