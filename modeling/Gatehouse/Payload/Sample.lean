import Gatehouse.Json.Codec

/-!
# Sample payloads

Two record types of the sizes that callers store: a flat one, and one with a nested record and a map.
-/

namespace Gatehouse

open Json

/-- A flat record with an optional field. -/
structure Profile where
  name : String
  tags : List String
  manager : Option String

namespace Profile

/-- A profile that is being read. -/
structure Draft where
  name : Option String := none
  tags : Option (List String) := none
  manager : Option (Option String) := none

open Scanner in
/-- The fields of a profile by name. -/
def fields (name : String) (d : Draft) : Member Draft :=
  if name = "name" then field d.name FromJson.scan fun a => { d with name := some a }
  else if name = "tags" then field d.tags FromJson.scan fun a => { d with tags := some a }
  else if name = "manager" then field d.manager FromJson.scan fun a => { d with manager := some a }
  else .unknown

/-- The profile, once every field that must be there is. -/
def Draft.finish (d : Draft) : Option Profile := do
  return { name := ← d.name, tags := ← d.tags, manager := d.manager.join }

open Scanner in
/-- The fields of a profile by place. -/
def places : Scanner Profile := do
  let name ← firstPlace FromJson.scan
  let tags ← nextPlace FromJson.scan
  let manager ← nextPlace FromJson.scan
  return { name, tags, manager }

end Profile

instance : ToJson Profile :=
  ⟨fun p => .object [("name", toJson p.name), ("tags", toJson p.tags), ("manager", toJson p.manager)]⟩
instance : FromJson Profile := ⟨Scanner.record {} Profile.fields Profile.Draft.finish Profile.places⟩

/-- The nested record of an `Outer`. -/
structure Inner where
  label : String
  score : Option Binary64

namespace Inner

/-- A nested record that is being read. -/
structure Draft where
  label : Option String := none
  score : Option (Option Binary64) := none

open Scanner in
/-- The fields of a nested record by name. -/
def fields (name : String) (d : Draft) : Member Draft :=
  if name = "label" then field d.label FromJson.scan fun a => { d with label := some a }
  else if name = "score" then field d.score FromJson.scan fun a => { d with score := some a }
  else .unknown

/-- The nested record, once every field that must be there is. -/
def Draft.finish (d : Draft) : Option Inner := do return { label := ← d.label, score := d.score.join }

open Scanner in
/-- The fields of a nested record by place. -/
def places : Scanner Inner := do
  let label ← firstPlace FromJson.scan
  let score ← nextPlace FromJson.scan
  return { label, score }

end Inner

instance : ToJson Inner := ⟨fun i => .object [("label", toJson i.label), ("score", toJson i.score)]⟩
instance : FromJson Inner := ⟨Scanner.record {} Inner.fields Inner.Draft.finish Inner.places⟩

/-- A record with a nested record and a map. -/
structure Outer where
  id : UInt64
  tags : List String
  inner : Option Inner
  /-- An ordered map. -/
  attributes : Table String Int32

namespace Outer

/-- A record with a nested one that is being read. -/
structure Draft where
  id : Option UInt64 := none
  tags : Option (List String) := none
  inner : Option (Option Inner) := none
  attributes : Option (Table String Int32) := none

open Scanner in
/-- The fields by name. -/
def fields (name : String) (d : Draft) : Member Draft :=
  if name = "id" then field d.id FromJson.scan fun a => { d with id := some a }
  else if name = "tags" then field d.tags FromJson.scan fun a => { d with tags := some a }
  else if name = "inner" then field d.inner FromJson.scan fun a => { d with inner := some a }
  else if name = "attributes" then field d.attributes FromJson.scan fun a => { d with attributes := some a }
  else .unknown

/-- The record, once every field that must be there is. -/
def Draft.finish (d : Draft) : Option Outer := do
  return { id := ← d.id, tags := ← d.tags, inner := d.inner.join, attributes := ← d.attributes }

open Scanner in
/-- The fields by place. -/
def places : Scanner Outer := do
  let id ← firstPlace FromJson.scan
  let tags ← nextPlace FromJson.scan
  let inner ← nextPlace FromJson.scan
  let attributes ← nextPlace FromJson.scan
  return { id, tags, inner, attributes }

end Outer

instance : ToJson Outer :=
  ⟨fun o => .object [("id", toJson o.id), ("tags", toJson o.tags), ("inner", toJson o.inner),
    ("attributes", toJson o.attributes)]⟩
instance : FromJson Outer := ⟨Scanner.record {} Outer.fields Outer.Draft.finish Outer.places⟩

end Gatehouse
