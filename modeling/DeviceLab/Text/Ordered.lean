import DeviceLab.Ascending

namespace DeviceLab.Text

/-- Values under names, the names in ascending order. -/
structure Dictionary (β : Type) where
  entries : List (String × β)
  ascending : entries.Pairwise (·.1 < ·.1)

namespace Dictionary

variable {β : Type}

instance : EmptyCollection (Dictionary β) := ⟨⟨[], .nil⟩⟩
instance : Inhabited (Dictionary β) := ⟨∅⟩

theorem ext_entries {a b : Dictionary β} (h : a.entries = b.entries) : a = b := by
  cases a
  cases b
  simpa using h

instance [DecidableEq β] : DecidableEq (Dictionary β) := fun a b =>
  if h : a.entries = b.entries then .isTrue (ext_entries h)
  else .isFalse fun heq => h (heq ▸ rfl)

/-- Give `key` the value `value`. -/
def insert (d : Dictionary β) (key : String) (value : β) : Dictionary β :=
  ⟨enterBy Prod.fst (key, value) d.entries, pairwise_enterBy Prod.fst _ d.ascending⟩

/-- The value under `key`. -/
def get? (d : Dictionary β) (key : String) : Option β :=
  d.entries.lookup key

/-- The dictionary of a list of entries; of two entries with one name the later counts. -/
def ofList (entries : List (String × β)) : Dictionary β :=
  entries.foldl (fun d e => d.insert e.1 e.2) ∅

end Dictionary

/-- A set of names, listed in ascending order. -/
structure NameSet where
  members : Dictionary Unit := ∅
  deriving DecidableEq

namespace NameSet

instance : EmptyCollection NameSet := ⟨⟨∅⟩⟩
instance : Inhabited NameSet := ⟨∅⟩

def toList (s : NameSet) : List String :=
  s.members.entries.map (·.1)

/-- The set with `name` added. -/
def insert (s : NameSet) (name : String) : NameSet :=
  ⟨s.members.insert name ()⟩

def ofList (names : List String) : NameSet :=
  names.foldl insert ∅

def isEmpty (s : NameSet) : Bool :=
  s.members.entries.isEmpty

instance : Membership String NameSet := ⟨fun s name => name ∈ s.toList⟩

instance (name : String) (s : NameSet) : Decidable (name ∈ s) :=
  inferInstanceAs (Decidable (name ∈ s.toList))

end NameSet

end DeviceLab.Text
