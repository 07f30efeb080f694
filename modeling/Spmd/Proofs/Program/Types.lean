import Spmd.Program.Types
import Spmd.Proofs.Except
import Spmd.Proofs.Ty.Legal

/-!
# Types that are read can be stated

They are legal, and no part of them is the type of an initializer list.
-/

namespace Spmd

theorem Read.lift_eq_ok {α : Type} {m : Except Fault α} {x : α} (h : Read.lift m = .ok x) : m = .ok x := by
  cases m with
  | error => cases h
  | ok y => cases h; rfl

theorem Read.fields_eq_ok {path : Path} {json : Option Json} {fields : List (String × Json)}
    (h : Read.fields path json = .ok fields) : json = some (.object fields) := by
  unfold Read.fields at h
  split at h <;> cases h
  rfl

theorem Read.string_eq_ok {path : Path} {json : Option Json} {text : String} (h : Read.string path json = .ok text) :
    json = some (.string text) := by
  unfold Read.string at h
  split at h <;> cases h
  rfl

namespace TypeNames

/-- Names that stand for types that can be stated. -/
def Stated (names : TypeNames) : Prop := ∀ entry ∈ names, entry.2.Stated

variable {names : TypeNames}

/-! ## Names -/

theorem find_stated (hn : names.Stated) {name : String} {t : Ty} (h : names.find? name = some t) : t.Stated := by
  unfold find? at h
  split at h
  · cases h; trivial
  · split at h
    · cases h; trivial
    · obtain ⟨entry, he, rfl⟩ := Option.map_eq_some_iff.mp h
      exact hn entry (List.mem_reverse.mp (List.mem_of_find?_eq_some he))

theorem qualify_stated (q : Written) {t : Ty} (ht : t.Stated) : (q.qualify t).Stated := by
  unfold Written.qualify
  cases q.variability with
  | none =>
    dsimp only
    split
    · exact ht.withConst _
    · exact ht
  | some v =>
    dsimp only
    split
    · exact (ht.withVariability v).withConst _
    · exact ht.withVariability v

theorem readName_stated (hn : names.Stated) {path : Path} {text : String} {t : Ty} (h : names.readName path text = .ok t) : t.Stated := by
  unfold readName at h
  obtain ⟨q, -, h⟩ := bind_eq_ok h
  split at h
  · rename_i u hu
    cases h
    exact qualify_stated q (find_stated hn hu)
  · cases h

/-! ## Objects -/

theorem readEnumeration_stated {path : Path} {fields : List (String × Json)} {t : Ty}
    (h : readEnumeration path fields = .ok t) : t.Stated := by
  unfold readEnumeration at h
  obtain ⟨name, -, h⟩ := bind_eq_ok h
  obtain ⟨items, -, h⟩ := bind_eq_ok h
  obtain ⟨enumerators, -, h⟩ := bind_eq_ok h
  obtain ⟨q, -, h⟩ := bind_eq_ok h
  cases h
  trivial

theorem readVector_stated {path : Path} {e : Ty} {fields : List (String × Json)} {t : Ty}
    (h : readVector path e fields = .ok t) : t.Stated := by
  unfold readVector at h
  split at h
  · obtain ⟨n, -, h⟩ := bind_eq_ok h
    cases h
    trivial
  · cases h

theorem readReference_stated {path : Path} {u : Ty} (hu : u.Stated) {t : Ty} (h : readReference path u = .ok t) :
    t.Stated := by
  unfold readReference at h
  split at h
  · cases h
  · rename_i hr
    cases h
    exact ⟨by simpa using hr, hu⟩

theorem arrayOf_stated {e : Ty} (he : e.Stated) {n : Option Nat} {t : Ty} (h : Ty.arrayOf e n = .ok t) : t.Stated := by
  unfold Ty.arrayOf at h
  split at h
  · cases h
  · rename_i hv
    cases h
    exact ⟨by simpa using hv, he⟩

mutual
theorem read_stated (hn : names.Stated) : ∀ {json : Json} {path : Path} {t : Ty}, read names path json = .ok t → t.Stated
  | .string text, path, t, h => readName_stated hn h
  | .object fields, path, t, h => by
    unfold read at h
    split at h
    · obtain ⟨p, hp, h⟩ := bind_eq_ok h
      obtain ⟨q, -, h⟩ := bind_eq_ok h
      cases h
      have hl : p.Stated := readField_stated hn hp
      exact hl
    · obtain ⟨n, -, h⟩ := bind_eq_ok h
      obtain ⟨e, he, h⟩ := bind_eq_ok h
      exact arrayOf_stated (readField_stated hn he) (Read.lift_eq_ok h)
    · obtain ⟨e, -, h⟩ := bind_eq_ok h
      exact readVector_stated h
    · obtain ⟨name, -, h⟩ := bind_eq_ok h
      obtain ⟨ms, hms, h⟩ := bind_eq_ok h
      obtain ⟨q, -, h⟩ := bind_eq_ok h
      cases h
      exact (Ty.membersStated_iff ms).mpr (readMembersField_stated hn hms)
    · exact readEnumeration_stated h
    · obtain ⟨ps, hps, h⟩ := bind_eq_ok h
      obtain ⟨r, hr, h⟩ := bind_eq_ok h
      cases h
      exact ⟨readField_stated hn hr, (Ty.allStated_iff ps).mpr (readParametersField_stated hn hps)⟩
    · obtain ⟨u, hu, h⟩ := bind_eq_ok h
      exact readReference_stated (readField_stated hn hu) h
    · cases h
  | .null, _, _, h => by cases h
  | .bool _, _, _, h => by cases h
  | .number _, _, _, h => by cases h
  | .array _, _, _, h => by cases h
theorem readField_stated (hn : names.Stated) : ∀ {fields : List (String × Json)} {path : Path} {key : String} {t : Ty},
    readField names path key fields = .ok t → t.Stated
  | [], _, _, _, h => by cases h
  | (k, json) :: rest, path, key, t, h => by
    rw [readField] at h
    split at h
    · exact read_stated hn h
    · exact readField_stated hn h
theorem readMembersField_stated (hn : names.Stated) : ∀ {fields : List (String × Json)} {path : Path} {ms : List (String × Ty)},
    readMembersField names path fields = .ok ms → ∀ m ∈ ms, m.2.Stated
  | [], _, _, h => by cases h
  | (k, .array items) :: rest, path, ms, h => by
    unfold readMembersField at h
    split at h
    · exact readMembers_stated hn h
    · exact readMembersField_stated hn h
  | (k, .null) :: rest, path, ms, h | (k, .bool _) :: rest, path, ms, h | (k, .number _) :: rest, path, ms, h
  | (k, .string _) :: rest, path, ms, h | (k, .object _) :: rest, path, ms, h => by
    unfold readMembersField at h
    split at h
    · cases h
    · exact readMembersField_stated hn h
theorem readMembers_stated (hn : names.Stated) : ∀ {js : List Json} {path : Path} {i : Nat} {ms : List (String × Ty)},
    readMembers names path i js = .ok ms → ∀ m ∈ ms, m.2.Stated
  | [], _, _, _, h => by cases h; exact fun _ hm => by cases hm
  | .object fields :: js, path, i, ms, h => by
    unfold readMembers at h
    obtain ⟨name, -, h⟩ := bind_eq_ok h
    obtain ⟨t, ht, h⟩ := bind_eq_ok h
    obtain ⟨member, hmember, h⟩ := bind_eq_ok h
    obtain ⟨rest, hrest, h⟩ := bind_eq_ok h
    cases hmember
    cases h
    intro m hm
    rcases List.mem_cons.mp hm with rfl | hm
    · exact readField_stated hn ht
    · exact readMembers_stated hn hrest m hm
  | .null :: js, path, i, ms, h | .bool _ :: js, path, i, ms, h | .number _ :: js, path, i, ms, h
  | .string _ :: js, path, i, ms, h | .array _ :: js, path, i, ms, h => by cases h
theorem readParametersField_stated (hn : names.Stated) : ∀ {fields : List (String × Json)} {path : Path} {ts : List Ty},
    readParametersField names path fields = .ok ts → ∀ t ∈ ts, t.Stated
  | [], _, _, h => by cases h; exact fun _ ht => by cases ht
  | (k, .array items) :: rest, path, ts, h => by
    unfold readParametersField at h
    split at h
    · exact readAll_stated hn h
    · exact readParametersField_stated hn h
  | (k, .null) :: rest, path, ts, h => by
    unfold readParametersField at h
    split at h
    · cases h; exact fun _ ht => by cases ht
    · exact readParametersField_stated hn h
  | (k, .bool _) :: rest, path, ts, h | (k, .number _) :: rest, path, ts, h | (k, .string _) :: rest, path, ts, h
  | (k, .object _) :: rest, path, ts, h => by
    unfold readParametersField at h
    split at h
    · cases h
    · exact readParametersField_stated hn h
theorem readAll_stated (hn : names.Stated) : ∀ {js : List Json} {path : Path} {i : Nat} {ts : List Ty},
    readAll names path i js = .ok ts → ∀ t ∈ ts, t.Stated
  | [], _, _, _, h => by cases h; exact fun _ ht => by cases ht
  | j :: js, path, i, ts, h => by
    rw [readAll] at h
    obtain ⟨t, ht, h⟩ := bind_eq_ok h
    obtain ⟨rest, hrest, h⟩ := bind_eq_ok h
    cases h
    intro u hu
    rcases List.mem_cons.mp hu with rfl | hu
    · exact read_stated hn ht
    · exact readAll_stated hn hrest u hu
end

/-! ## Definitions -/

theorem define_stated {make : String → Ty → Ty} (hmake : ∀ name t, t.Stated → (make name t).Stated) :
    ∀ {fields : List (String × Json)} {names : TypeNames} {defined : TypeNames}, names.Stated →
      define make names fields = .ok defined → defined.Stated
  | [], names, _, hn, h => by cases h; exact hn
  | (name, json) :: rest, names, defined, hn, h => by
    rw [define] at h
    obtain ⟨t, ht, h⟩ := bind_eq_ok h
    refine define_stated hmake (fun entry he => ?_) h
    rcases List.mem_append.mp he with he | he
    · exact hn entry he
    · rw [List.mem_singleton.mp he]
      exact hmake name t (read_stated hn ht)

end TypeNames

end Spmd
