import DeviceLab.Device.Selection

namespace DeviceLab.Selection

open Text

/-- A device satisfies each of the seven constraints.  An empty set of names asks for nothing. -/
structure Admits (s : Selection) (d : Device) : Prop where
  serial : s.serials = ∅ ∨ d.serial ∈ s.serials
  notExcluded : d.serial ∉ s.excludedSerials
  productType : s.productTypes = ∅ ∨ ∃ name ∈ s.productTypes, d.productType? = some name
  productDeviceType : s.productDeviceTypes = ∅ ∨
    ∃ name ∈ s.productDeviceTypes, d.productDeviceType? = some name
  properties : ∀ e ∈ s.properties.entries, d.property? e.1 = some e.2
  emulator : s.emulator = d.emulator
  nullDevice : s.nullDevice = true ↔ d.kind = .null

theorem isEmpty_iff {names : NameSet} : names.isEmpty = true ↔ names = ∅ := by
  constructor
  · intro h
    have hentries : names.members.entries = [] := by
      simpa [NameSet.isEmpty] using h
    cases names
    exact congrArg NameSet.mk (Dictionary.ext_entries hentries)
  · rintro rfl
    rfl

theorem allows_iff {names : NameSet} {name? : Option String} :
    allows names name? = true ↔ names = ∅ ∨ ∃ name ∈ names, name? = some name := by
  rw [allows, Bool.or_eq_true, isEmpty_iff, Option.any_eq_true]
  simp only [decide_eq_true_eq, and_comm]

theorem accepts_iff {s : Selection} {d : Device} : s.accepts d = true ↔ s.Admits d := by
  simp only [accepts, Bool.and_eq_true, allows_iff, Bool.not_eq_true', decide_eq_false_iff_not,
    List.all_eq_true, beq_iff_eq, Option.some.injEq]
  constructor
  · rintro ⟨⟨⟨⟨⟨⟨hserial, hexcluded⟩, htype⟩, hdeviceType⟩, hproperties⟩, hemulator⟩, hnull⟩
    refine ⟨?_, hexcluded, htype, hdeviceType, hproperties, hemulator, ?_⟩
    · exact hserial.imp_right fun ⟨name, hmem, heq⟩ => heq ▸ hmem
    · rw [hnull]
      exact beq_iff_eq
  · rintro ⟨hserial, hexcluded, htype, hdeviceType, hproperties, hemulator, hnull⟩
    refine ⟨⟨⟨⟨⟨⟨?_, hexcluded⟩, htype⟩, hdeviceType⟩, hproperties⟩, hemulator⟩, ?_⟩
    · exact hserial.imp_right fun hmem => ⟨d.serial, hmem, rfl⟩
    · rw [Bool.eq_iff_iff, hnull]
      exact beq_iff_eq.symm

end DeviceLab.Selection
