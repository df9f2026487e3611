import Gatehouse.Proofs.Service.Requests

/-!
# What the operations of the service keep to

Limiters and codes make calls on the keys of their own parts only, besides scans; the operations on tokens make calls
on markers only, and every marker that they write lives as long as its record says.
-/

namespace Gatehouse

/-- A discipline that admits scans for keys and every call on the keys that satisfy a condition. -/
structure Discipline.Opens (D : Discipline) (K : String → Prop) : Prop where
  scan : ∀ stem, D.calls (.keys stem)
  point : ∀ (c : EngineCall) (key : String), c.key? = some key → K key → D.calls c

variable {D : Discipline} {K : String → Prop}

theorem Discipline.Opens.protocol (h : D.Opens K) : D.protocol.Opens K where
  point := h.point
  listed _ _ hl := hl
  clock := trivial
  record _ := trivial

/-! ## The typed cache -/

namespace Cache

theorem uncounted_abides {c : EngineCall} (h : D.calls c) :
    Abides D (uncounted c) fun a => Discipline.told c (.ok a) :=
  abides_iff.mpr (uncounted_observes (P := D.protocol) h)

theorem put_abides {α : Type} [Json.Encode α] {key : String} {value : α} {expiration : Option Span}
    (h : ∀ b, D.calls (.put key b (lifetime expiration))) : Abides D (put key value expiration) fun _ => True :=
  abides_iff.mpr (put_observes (P := D.protocol) (fun _ => trivial) fun b _ => h b)

end Cache

/-! ## Limiters -/

namespace Limiter

variable {l : Limiter}

theorem guard_abides (h : D.Opens K) (limit : Nat) : Abides D (l.guard limit) fun _ => True :=
  abides_iff.mpr (guard_observes h.protocol (h.scan _) limit)

theorem count_within (h : D.Opens K) : l.count.Within D fun _ => True :=
  Action.within_iff.mpr (count_follows h.protocol (h.scan _))

theorem recordAt_abides (h : D.Opens K) (hl : l.Reaches K) (second : Int64) :
    Abides D (l.recordAt second) fun _ => True :=
  abides_iff.mpr (recordAt_observes h.protocol (hl.admits h.protocol) second)

theorem record_abides (h : D.Opens K) (hl : l.Reaches K) : Abides D l.record fun _ => True :=
  abides_iff.mpr (record_observes h.protocol (hl.admits h.protocol))

theorem clear_abides (h : D.Opens K) (hl : l.Reaches K) : Abides D l.clear fun _ => True :=
  abides_iff.mpr (clear_observes h.protocol (h.scan _) hl)

end Limiter

/-! ## Codes -/

namespace OneTimeCode

variable (settings : CodeSettings) (medium credential : String)

theorem issue_abides (h : D.Opens Keys.Part.attempt.Holds) (hc : D.Opens Keys.Part.code.Holds) :
    Abides D (issue settings medium credential) fun _ => True := by
  refine abides_iff.mpr (issue_observes h.protocol (.inr trivial) (h.scan _) (fun _ _ => trivial) ?_
    ((Limiter.reaches_attempts _ _ _).admits h.protocol))
  intro code b
  exact hc.point _ _ rfl (Keys.code_holds _ _ _)

theorem verify_abides (h : D.Opens Keys.Part.attempt.Holds) (code : String)
    (hc : D.calls (.take (Keys.code medium credential code))) :
    Abides D (verify settings medium credential code) fun _ => True :=
  abides_iff.mpr (verify_observes h.protocol (h.scan _) hc)

end OneTimeCode

/-! ## Tokens -/

/-- A discipline under which records are revoked: it admits every marker that lives as long as its record says, and a
record that is not revoked stays admitted when it is. -/
structure Discipline.Marks (D : Discipline) : Prop where
  mark : ∀ (r : TokenRecord) (lifetime : Option Span), D.records r →
    Revocation.markerLifetime r.expiresAt D.now = .returned lifetime →
      D.calls (.put (Keys.revokedToken r.id) (Json.encode true) (Cache.lifetime lifetime))
  revoked : ∀ (r : TokenRecord) (t : Instant), r.isRevoked = false → D.records r →
    D.records { r with revokedAt := some t }

theorem Discipline.Marks.protocol (h : D.Marks) : D.protocol.Marks (fun t => t = D.now) D.records where
  clock := trivial
  now _ ht := ht
  record _ := trivial
  abandons := trivial
  find _ := trivial
  found _ r hr := hr r rfl
  list _ _ := trivial
  listed _ _ _ hl := hl
  save _ hr := hr
  revoked := h.revoked
  mark := by
    rintro r now lifetime rfl hr hlife
    exact h.mark r lifetime hr hlife

namespace Revocation

theorem store_abides {c : StoreCall} (h : D.admits (.store c)) :
    Abides D (store c) fun a => D.toldOfRecords c (.ok a) :=
  abides_iff.mpr (store_observes (P := D.protocol) h)

theorem revoke_abides (h : D.Marks) {r : TokenRecord} (hr : D.records r) : Abides D (revoke r) fun _ => True :=
  abides_iff.mpr (revoke_observes h.protocol hr)

theorem revokeById_abides (h : D.Marks) (id : String) : Abides D (revokeById id) fun _ => True :=
  abides_iff.mpr (revokeById_observes h.protocol id)

theorem load_abides (h : D.Marks) : Abides D load fun _ => True := abides_iff.mpr (load_observes h.protocol)

theorem isRevoked_abides {id : String} (h : D.calls (.has (Keys.revokedToken id))) :
    Abides D (isRevoked id) fun _ => True :=
  abides_iff.mpr (isRevoked_observes (P := D.protocol) (fun _ => trivial) h)

end Revocation

end Gatehouse
