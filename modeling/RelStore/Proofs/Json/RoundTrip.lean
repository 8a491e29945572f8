import RelStore.Json.Read
import RelStore.Proofs.Json.Tokens

/-! What is written as JSON is read as the same value. -/
namespace RelStore.Json

/-- A member as it is read. -/
def readMember (m : String × Json) : Option String × Json := (some m.1, m.2)

theorem ofMembers_readMember (members : List (String × Json)) :
    ofMembers (members.map readMember) = .object members := by
  have hall : (members.map readMember).all (·.1.isSome) = true := by
    simp [readMember]
  have hmap : (members.map readMember).map (fun m => (m.1.getD "", m.2)) = members := by
    rw [List.map_map]
    exact List.map_id' _
  rw [ofMembers, if_pos hall, hmap]

theorem tokens_eq_cons (x : Json) :
    ∃ t ts, tokens x = t :: ts ∧ t ≠ .rightBracket ∧ t ≠ .rightBrace := by
  cases x with
  | null => exact ⟨.null, [], rfl, nofun, nofun⟩
  | bool b => exact ⟨.bool b, [], rfl, nofun, nofun⟩
  | number n => exact ⟨.number (some n), [], rfl, nofun, nofun⟩
  | string s => exact ⟨.text (some s), [], rfl, nofun, nofun⟩
  | array items => cases items <;> exact ⟨.leftBracket, _, rfl, nofun, nofun⟩
  | object members => cases members <;> exact ⟨.leftBrace, _, rfl, nofun, nofun⟩
  | unreadable => exact ⟨.text none, [], rfl, nofun, nofun⟩

theorem readValue?_array (fuel : Nat) (x : Json) (rest : List Token) :
    readValue? (fuel + 1) (.leftBracket :: (tokens x ++ rest)) =
      (readValue? fuel (tokens x ++ rest)).bind fun r =>
        (readItems? fuel r.2).bind fun s => some (.array (r.1 :: s.1), s.2) := by
  obtain ⟨t, ts, ht, hne, -⟩ := tokens_eq_cons x
  rw [ht, List.cons_append, readValue?.eq_def]
  cases t <;> first | exact absurd rfl hne | rfl

mutual
/-- The tokens of a value are read as the value. -/
theorem readValue?_tokens : ∀ (x : Json) (fuel : Nat) (rest : List Token),
    IsExact x → (tokens x).length < fuel → readValue? fuel (tokens x ++ rest) = some (x, rest)
  | _, 0, _, _, hf => absurd hf (Nat.not_lt_zero _)
  | .null, fuel + 1, rest, _, _ => rfl
  | .bool _, fuel + 1, rest, _, _ => rfl
  | .number _, fuel + 1, rest, _, _ => rfl
  | .string _, fuel + 1, rest, _, _ => rfl
  | .unreadable, _, _, hx, _ => hx.elim
  | .array [], fuel + 1, rest, _, _ => rfl
  | .object [], fuel + 1, rest, _, _ => rfl
  | .array (x :: items), fuel + 1, rest, hx, hf => by
    simp only [tokens, List.length_append, List.length_cons, List.length_nil] at hf
    have hfirst := readValue?_tokens x fuel (itemTokens items ++ .rightBracket :: rest) hx.1
      (by omega)
    have hitems := readItems?_tokens items fuel rest hx.2 (by omega)
    simp only [tokens, List.cons_append, List.append_assoc, List.nil_append]
    rw [readValue?_array, hfirst, Option.bind_some, hitems]
    rfl
  | .object ((name, x) :: members), fuel + 1, rest, hx, hf => by
    simp only [tokens, List.length_append, List.length_cons, List.length_nil] at hf
    have hfirst := readValue?_tokens x fuel (memberTokens members ++ .rightBrace :: rest) hx.1
      (by omega)
    have hmembers := readMembers?_tokens members fuel rest hx.2 (by omega)
    simp only [tokens, List.cons_append, List.append_assoc, List.nil_append, readValue?, hfirst,
      hmembers, Option.bind_eq_bind, Option.bind_some]
    exact congrArg (fun y => some (y, rest)) (ofMembers_readMember ((name, x) :: members))

theorem readItems?_tokens : ∀ (items : List Json) (fuel : Nat) (rest : List Token),
    ItemsExact items → (itemTokens items).length < fuel →
      readItems? fuel (itemTokens items ++ .rightBracket :: rest) = some (items, rest)
  | _, 0, _, _, hf => absurd hf (Nat.not_lt_zero _)
  | [], fuel + 1, rest, _, _ => rfl
  | x :: items, fuel + 1, rest, hx, hf => by
    simp only [itemTokens, List.length_append, List.length_cons] at hf
    have hfirst := readValue?_tokens x fuel (itemTokens items ++ .rightBracket :: rest) hx.1
      (by omega)
    have hitems := readItems?_tokens items fuel rest hx.2 (by omega)
    simp only [itemTokens, List.cons_append, List.append_assoc, readItems?, hfirst, hitems,
      Option.bind_eq_bind, Option.bind_some]
    rfl

theorem readMembers?_tokens : ∀ (members : List (String × Json)) (fuel : Nat)
    (rest : List Token), MembersExact members → (memberTokens members).length < fuel →
      readMembers? fuel (memberTokens members ++ .rightBrace :: rest) =
        some (members.map readMember, rest)
  | _, 0, _, _, hf => absurd hf (Nat.not_lt_zero _)
  | [], fuel + 1, rest, _, _ => rfl
  | (name, x) :: members, fuel + 1, rest, hx, hf => by
    simp only [memberTokens, List.length_append, List.length_cons] at hf
    have hfirst := readValue?_tokens x fuel (memberTokens members ++ .rightBrace :: rest) hx.1
      (by omega)
    have hmembers := readMembers?_tokens members fuel rest hx.2 (by omega)
    simp only [memberTokens, List.cons_append, List.append_assoc, readMembers?, hfirst,
      hmembers, Option.bind_eq_bind, Option.bind_some]
    rfl
end

theorem read?_pretty {x : Json} (h : IsExact x) : read? x.pretty.toUTF8.toList = some x := by
  have hbytes : x.pretty.toUTF8.toList = utf8 (prettyChars 0 x) := by
    rw [toList_toUTF8, pretty, String.toList_ofList]
  have hread := readValue?_tokens x ((tokens x).length + 1) [] h (Nat.lt_succ_self _)
  rw [List.append_nil] at hread
  rw [hbytes, read?, lex_pretty h]
  simp only [Option.bind_eq_bind, Option.bind_some, ofTokens?, hread, List.isEmpty_nil, if_true]

end RelStore.Json
