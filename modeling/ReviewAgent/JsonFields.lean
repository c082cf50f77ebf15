import ReviewAgent.Interpreter

/-! Fields of a dumped model: their names are different, and strings are read back. -/
namespace ReviewAgent

open Json (Text Value lookup points)

/-- A string as a JSON string. -/
def jsonString (s : String) : Value := .str (points s)

theorem points_injective : Function.Injective points := by
  intro s t h
  have hchars : Function.Injective Char.toNat := fun _ _ h => Char.toNat_inj.mp h
  exact String.toList_inj.mp (List.map_injective_iff.mpr hchars h)

/-- The value of a key that stands once. -/
theorem lookup_of_mem {members : List (Text × Value)} {key : Text} {value : Value}
    (hkeys : (members.map Prod.fst).Nodup) (h : (key, value) ∈ members) :
    lookup key members = some value := by
  have hfound : (members.reverse.find? fun member => member.1 = key).isSome = true := by
    rw [List.find?_isSome]
    exact ⟨(key, value), List.mem_reverse.mpr h, by simp⟩
  obtain ⟨member, hmember⟩ := Option.isSome_iff_exists.mp hfound
  have hkey : member.1 = key := by simpa using List.find?_some hmember
  have hmem : member ∈ members := List.mem_reverse.mp (List.mem_of_find?_eq_some hmember)
  have hsame : member = (key, value) := List.inj_on_of_nodup_map hkeys hmem h hkey
  rw [lookup, hmember, hsame]
  rfl

/-- A `str` field takes back every string. -/
theorem strField_jsonString (s : String) : strField (jsonString s) = some s := by
  have hplain : (points s).any (fun c => 0xD800 ≤ c && c ≤ 0xDFFF) = false := by
    rw [List.any_eq_false]
    intro n hn
    obtain ⟨c, -, rfl⟩ := List.mem_map.mp hn
    have hvalid : c.toNat < 0xD800 ∨ 0xDFFF < c.toNat ∧ c.toNat < 0x110000 := c.valid
    rw [Bool.and_eq_true, decide_eq_true_eq, decide_eq_true_eq]
    rintro ⟨hlow, hhigh⟩
    rcases hvalid with hbelow | ⟨habove, -⟩
    · exact absurd hlow (Nat.not_le.mpr hbelow)
    · exact absurd hhigh (Nat.not_le.mpr habove)
  have hchars : (points s).map Char.ofNat = s.toList := by
    simp [points, Function.comp_def]
  rw [jsonString, strField, if_neg (by simp [hplain]), hchars, String.ofList_toList]

end ReviewAgent
