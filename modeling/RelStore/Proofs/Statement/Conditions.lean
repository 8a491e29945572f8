import RelStore.Proofs.Statement.Readers

/-! Reading a condition: the chain of comparisons that is read groups as the grammar says,
AND before OR and each to the left. -/
namespace RelStore
namespace Statement

open Grammar
open Condition (Connective ofChain joinRun)

def connectiveKind : Connective → Token.Kind
  | .and => .keyword .and
  | .or => .keyword .or

/-- Comparisons, each behind what joins it to those before. -/
inductive Chain : Rule (List (Connective × Condition))
  | nil : Chain [] []
  | cons {op e us rest vs} (he : Comparison e us) (hr : Chain rest vs) :
    Chain ((op, e) :: rest) (connectiveKind op :: us ++ vs)

variable {us vs : List Token.Kind} {ts rest : List Token}

theorem Chain.append {l l' : List (Connective × Condition)} (h : Chain l us) (h' : Chain l' vs) :
    Chain (l ++ l') (us ++ vs) := by
  induction h with
  | nil => exact h'
  | @cons op e us rest vs he _ ih =>
    have hc : Chain ((op, e) :: (rest ++ l')) _ := .cons he ih
    rw [← List.append_assoc] at hc
    exact hc

/-- A conjunction continues whatever chain its comparisons continue. -/
theorem chain_of_conjunction {c : Condition} (h : Conjunction c us) :
    ∃ e l us' vs', Comparison e us' ∧ Chain l vs' ∧ us = us' ++ vs' ∧
      ∀ done more, ofChain done e (l ++ more) = ofChain done c more := by
  induction h with
  | one h => exact ⟨_, [], _, [], h, .nil, (List.append_nil _).symm, fun _ _ => rfl⟩
  | @and l us r vs _ hr ih =>
    obtain ⟨e, chain, us', vs', he, hc, rfl, hof⟩ := ih
    refine ⟨e, chain ++ [(.and, r)], us', vs' ++ .keyword .and :: vs, he, ?_, ?_, ?_⟩
    · have hlast : Chain [(.and, r)] _ := .cons hr .nil
      rw [List.append_nil] at hlast
      exact hc.append hlast
    · rw [List.append_assoc]
    · intro done more
      rw [List.append_assoc, hof]
      rfl

theorem chain_of_disjunction {c : Condition} (h : Disjunction c us) :
    ∃ e l us' vs', Comparison e us' ∧ Chain l vs' ∧ us = us' ++ vs' ∧
      ∃ done run, joinRun done run = c ∧
        ∀ more, ofChain none e (l ++ more) = ofChain done run more := by
  induction h with
  | @one c us h =>
    obtain ⟨e, l, us', vs', he, hc, hus, hof⟩ := chain_of_conjunction h
    exact ⟨e, l, us', vs', he, hc, hus, none, c, rfl, hof none⟩
  | @or l us r vs _ hr ih =>
    obtain ⟨e, chain, us', vs', he, hc, rfl, done, run, hl, hof⟩ := ih
    obtain ⟨e₂, chain₂, us₂, vs₂, he₂, hc₂, rfl, hof₂⟩ := chain_of_conjunction hr
    refine ⟨e, chain ++ (.or, e₂) :: chain₂, us', vs' ++ .keyword .or :: (us₂ ++ vs₂), he, ?_, ?_,
      some l, r, rfl, ?_⟩
    · have hlast : Chain ((.or, e₂) :: chain₂) (.keyword .or :: us₂ ++ vs₂) := .cons he₂ hc₂
      exact hc.append hlast
    · rw [List.append_assoc]
    · intro more
      rw [List.append_assoc, hof]
      show ofChain (some (joinRun done run)) e₂ (chain₂ ++ more) = _
      rw [hl, hof₂]

/-- The runs of a chain so far: the latest is a conjunction, those before it a disjunction. -/
inductive Runs : Option Condition → Rule Condition
  | first {run us} (h : Conjunction run us) : Runs none run us
  | later {done us run vs} (hd : Disjunction done us) (hr : Conjunction run vs) :
    Runs (some done) run (us ++ .keyword .or :: vs)

theorem Runs.join {done : Option Condition} {run : Condition} (h : Runs done run us) :
    Disjunction (joinRun done run) us := by
  cases h with
  | first h => exact .one h
  | later hd hr => exact .or hd hr

theorem Runs.and {done : Option Condition} {run e : Condition} (h : Runs done run us)
    (he : Comparison e vs) : Runs done (.and run e) (us ++ .keyword .and :: vs) := by
  cases h with
  | first h => exact .first (.and h he)
  | later hd hr =>
    rw [List.append_assoc]
    exact .later hd (.and hr he)

theorem disjunction_of_chain {done : Option Condition} {run : Condition}
    {l : List (Connective × Condition)} (h : Runs done run us) (hc : Chain l vs) :
    Disjunction (ofChain done run l) (us ++ vs) := by
  induction hc generalizing done run us with
  | nil =>
    rw [List.append_nil]
    exact h.join
  | @cons op e ws rest xs he _ ih =>
    have hassoc : us ++ (connectiveKind op :: ws ++ xs) = (us ++ connectiveKind op :: ws) ++ xs := by
      simp
    rw [hassoc]
    cases op with
    | and => exact ih (h.and he)
    | or => exact ih (.later h.join (.one he))

theorem disjunction_iff {c : Condition} :
    Disjunction c us ↔ ∃ e l us' vs', Comparison e us' ∧ Chain l vs' ∧ us = us' ++ vs' ∧
      ofChain none e l = c := by
  constructor
  · intro h
    obtain ⟨e, l, us', vs', he, hc, hus, done, run, hjoin, hof⟩ := chain_of_disjunction h
    have hend := hof []
    rw [List.append_nil] at hend
    exact ⟨e, l, us', vs', he, hc, hus, hend.trans hjoin⟩
  · rintro ⟨e, l, us', vs', he, hc, rfl, rfl⟩
    exact disjunction_of_chain (.first (.one he)) hc

theorem equation_eq_ok_iff {seen : List String} {e : String × Value} :
    equation seen ts = .ok (e, rest) ↔
      (∃ us, Equation e us ∧ Spells us ts rest) ∧ e.1 ∉ seen := by
  obtain ⟨column, value⟩ := e
  constructor
  · intro h
    obtain ⟨⟨name, ts₁⟩, hname, h⟩ := Stuck.bind_eq_ok_iff.1 h
    have hname := identifier_eq_ok_iff.1 hname
    dsimp only at h
    split at h
    · cases h
    · rename_i hseen
      obtain ⟨ts₂, hequal, h⟩ := Stuck.bind_eq_ok_iff.1 h
      obtain ⟨⟨v, ts₃⟩, hv, h⟩ := Stuck.bind_eq_ok_iff.1 h
      cases h
      obtain ⟨us, hl, hs⟩ := literal_eq_ok_iff.1 hv
      exact ⟨⟨_, .mk hl, hname.cons ((expect_eq_ok_iff.1 hequal).cons hs)⟩, hseen⟩
  · rintro ⟨⟨us, ⟨hl⟩, hs⟩, hseen⟩
    obtain ⟨ts₁, hname, hs⟩ := spells_cons_iff.1 hs
    obtain ⟨ts₂, hequal, hs⟩ := spells_cons_iff.1 hs
    have hv := literal_eq_ok_iff.2 ⟨_, hl, hs⟩
    simp only [equation, identifier_eq_ok_iff.2 hname, expect_eq_ok_iff.2 hequal, hv,
      bind, Except.bind, hseen, if_false]
    rfl

theorem connective?_eq_some_iff {op : Connective} :
    connective? ts = some (op, rest) ↔ Spells [connectiveKind op] ts rest := by
  rw [spells_singleton_iff]
  constructor
  · intro h
    unfold connective? at h
    split at h
    · cases h
      exact ⟨_, rfl⟩
    · cases h
      exact ⟨_, rfl⟩
    · cases h
  · rintro ⟨p, rfl⟩
    cases op <;> rfl

def connectives : List Token.Kind := [.keyword .and, .keyword .or]

theorem connective?_eq_none (h : Clear connectives ts) : connective? ts = none := by
  unfold connective?
  split
  · simp [Clear, connectives] at h
  · simp [Clear, connectives] at h
  · rfl

theorem chainFrom_sound {fuel : Nat} {l : List (Connective × Condition)}
    (h : chainFrom fuel ts = .ok (l, rest)) : ∃ us, Chain l us ∧ Spells us ts rest := by
  induction fuel generalizing ts l with
  | zero =>
    cases h
    exact ⟨[], .nil, spells_nil⟩
  | succ fuel ih =>
    rw [chainFrom] at h
    split at h
    · cases h
      exact ⟨[], .nil, spells_nil⟩
    · rename_i op ts₁ hop
      obtain ⟨⟨⟨column, value⟩, ts₂⟩, he, h⟩ := Stuck.bind_eq_ok_iff.1 h
      obtain ⟨⟨more, ts₃⟩, hmore, h⟩ := Stuck.bind_eq_ok_iff.1 h
      cases h
      obtain ⟨⟨us, he, hs⟩, -⟩ := equation_eq_ok_iff.1 he
      obtain ⟨vs, hc, hs'⟩ := ih hmore
      exact ⟨_, .cons (.equation he) hc, (connective?_eq_some_iff.1 hop).cons (hs.append hs')⟩

theorem chainFrom_complete {fuel : Nat} {l : List (Connective × Condition)}
    (hf : ts.length ≤ fuel) (h : Chain l us) (hs : Spells us ts rest)
    (hc : Clear connectives rest) : chainFrom fuel ts = .ok (l, rest) := by
  induction h generalizing fuel ts with
  | nil =>
    obtain rfl := spells_nil_iff.1 hs
    cases fuel with
    | zero => rfl
    | succ fuel =>
      rw [chainFrom, connective?_eq_none hc]
  | @cons op e us l vs he _ ih =>
    obtain ⟨ts₁, hop, hs⟩ := spells_cons_iff.1 hs
    obtain ⟨ts₂, hs, hs'⟩ := spells_append_iff.1 hs
    have hl := hop.length_eq
    have hl' := hs.length_eq
    rw [List.length_singleton] at hl
    cases fuel with
    | zero => omega
    | succ fuel =>
      obtain ⟨hequation⟩ := he
      have he := equation_eq_ok_iff.2 ⟨⟨_, hequation, hs⟩, List.not_mem_nil⟩
      have hrest := ih (by omega : ts₂.length ≤ fuel) hs'
      rw [chainFrom, connective?_eq_some_iff.2 hop]
      simp only [he, bind, Except.bind, hrest]
      rfl

theorem reads_condition : Reads condition Disjunction connectives where
  sound := by
    intro ts c rest h
    obtain ⟨⟨⟨column, value⟩, ts₁⟩, he, h⟩ := Stuck.bind_eq_ok_iff.1 h
    obtain ⟨⟨l, ts₂⟩, hl, h⟩ := Stuck.bind_eq_ok_iff.1 h
    cases h
    obtain ⟨⟨us, he, hs⟩, -⟩ := equation_eq_ok_iff.1 he
    obtain ⟨vs, hc, hs'⟩ := chainFrom_sound hl
    exact ⟨_, disjunction_iff.2 ⟨_, _, _, _, .equation he, hc, rfl, rfl⟩, hs.append hs'⟩
  complete := by
    intro ts c rest us h hs hclear
    obtain ⟨e, l, us', vs', ⟨he⟩, hc, rfl, rfl⟩ := disjunction_iff.1 h
    obtain ⟨ts₁, hs, hs'⟩ := spells_append_iff.1 hs
    have he := equation_eq_ok_iff.2 ⟨⟨_, he, hs⟩, List.not_mem_nil⟩
    have hl := chainFrom_complete (Nat.le_refl _) hc hs' hclear
    simp only [condition, he, bind, Except.bind, hl]
    rfl

end Statement
end RelStore
