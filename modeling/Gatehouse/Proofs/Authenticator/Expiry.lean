import Gatehouse.Proofs.Authenticator.Verdict

/-!
# Tokens that have expired

A verification tells that a token has expired just if its expiry has come (`tokenExpired_iff`), whatever the cache holds
and whichever calls fail. The expiry that the claims name counts only if its second is one that exists: a token that
expired before the first such second is judged like one that never expires (`expired_rejected_iff`).
-/

namespace Gatehouse

/-- The start of a second that has begun lies in the past. -/
theorem Instant.startOfSecond_le {n : Int} {now : Instant} : (⟨n, 0⟩ : Instant) ≤ now ↔ n ≤ now.seconds := by
  change Instant.le _ _ = true ↔ _
  unfold Instant.le
  simp only [Bool.or_eq_true, Bool.and_eq_true, decide_eq_true_eq]
  omega

namespace Authenticator

variable {t t' : AccessToken} {c : TokenClaims} {e : Int64}

/-- A verification looks at the id, the expiry and the type of account of a token. -/
theorem verify_congr (hid : t.id = t'.id) (hexp : t.expiresAt = t'.expiresAt) (hact : t.claim "act" = t'.claim "act")
    (allowed : List AccountType) : verify t allowed = verify t' allowed := by
  unfold verify hasExpired allowed?
  rw [hid, hexp, hact]

/-- A token that has not expired may be rejected, but not as an expired one. -/
theorem verdict_ne_tokenExpired {allowed : List AccountType} {now : Instant} (hlive : hasExpired t now = false)
    (revoked : Bool) : verdict t allowed now revoked ≠ .error .tokenExpired := by
  unfold verdict
  rw [hlive, if_neg Bool.false_ne_true]
  intro h
  split at h
  · cases h
  · split at h <;> cases h

/-- A verification tells that a token has expired just if its expiry has come. -/
theorem tokenExpired_iff (s : Service) (t : AccessToken) (allowed : List AccountType) :
    (s.run (verify t allowed).run).1 = .returned (.error .tokenExpired) ↔ hasExpired t s.clocks.instant = true := by
  rw [run_verify]
  cases hlive : hasExpired t s.clocks.instant with
  | true => simp
  | false =>
    have hne (revoked : Bool) : verdict t allowed s.clocks.instant revoked ≠ .error .tokenExpired :=
      verdict_ne_tokenExpired hlive revoked
    rw [if_neg Bool.false_ne_true, run_accept s hlive]
    refine iff_of_false (fun h => ?_) Bool.false_ne_true
    split at h
    · rename_i r s₁ hcall
      cases r with
      | ok revoked => exact hne revoked (Outcome.returned.inj h)
      | error e => cases h
    · cases h

/-- Once the second of an expiry has begun, the token has expired if that second is one that exists. -/
theorem hasExpired_claims {now : Instant} (hexp : c.exp = some e) (hpast : e.toInt ≤ now.seconds) :
    hasExpired c.toAccessToken now = Instant.inRange e.toInt := by
  have hexpires : c.toAccessToken.expiresAt = Instant.ofSeconds? e.toInt := by
    change c.exp.bind (fun t => Instant.ofSeconds? t.toInt) = _
    rw [hexp]
    rfl
  unfold hasExpired
  rw [hexpires]
  unfold Instant.ofSeconds?
  cases hrange : Instant.inRange e.toInt with
  | true => exact decide_eq_true (Instant.startOfSecond_le.mpr hpast)
  | false => rfl

/-- Claims whose expiry does not exist are judged like claims without one. -/
theorem verify_of_not_inRange (hexp : c.exp = some e) (hrange : Instant.inRange e.toInt = false)
    (allowed : List AccountType) :
    verify c.toAccessToken allowed = verify ({ c with exp := none } : TokenClaims).toAccessToken allowed := by
  have hnone : c.toAccessToken.expiresAt = ({ c with exp := none } : TokenClaims).toAccessToken.expiresAt := by
    change c.exp.bind (fun t => Instant.ofSeconds? t.toInt) = none
    rw [hexp]
    change Instant.ofSeconds? e.toInt = none
    unfold Instant.ofSeconds?
    rw [hrange, if_neg Bool.false_ne_true]
  refine verify_congr ?_ hnone ?_ allowed
  · rfl
  · rfl

/-- When the second of its expiry has begun, a token is rejected as expired just if that second is one that exists, and
this depends neither on the cache nor on what else fails. Otherwise the token is judged like one that never expires. -/
theorem expired_rejected_iff (s : Service) (allowed : List AccountType) (hexp : c.exp = some e)
    (hpast : e.toInt ≤ s.clocks.instant.seconds) :
    ((s.run (verify c.toAccessToken allowed).run).1 = .returned (.error .tokenExpired) ↔
      Instant.inRange e.toInt = true) ∧
    (Instant.inRange e.toInt = false →
      s.run (verify c.toAccessToken allowed).run =
        s.run (verify ({ c with exp := none } : TokenClaims).toAccessToken allowed).run) := by
  refine ⟨?_, fun hrange => ?_⟩
  · rw [tokenExpired_iff, hasExpired_claims hexp hpast]
  · rw [verify_of_not_inRange hexp hrange]

/-- Claims of an administrator's token that expires in a given second. -/
def claimsUntil (second : Int64) : TokenClaims :=
  ⟨"admin_access_tokens:1", "1", some second, some "admin", Table.empty⟩

/-- At the start of 1970, a token that expires in that second is rejected as expired, and so is one that expired in the
first second that exists. -/
theorem expired_rejected_at_both_ends :
    (Revocation.sampleService.run (verify (claimsUntil 0).toAccessToken [.admin]).run).1 =
        .returned (.error .tokenExpired) ∧
      (Revocation.sampleService.run (verify (claimsUntil (-8334601228800)).toAccessToken [.admin]).run).1 =
        .returned (.error .tokenExpired) :=
  ⟨(expired_rejected_iff (e := 0) Revocation.sampleService [.admin] rfl (by decide +kernel)).1.mpr (by decide +kernel),
    (expired_rejected_iff (e := -8334601228800) Revocation.sampleService [.admin] rfl (by decide +kernel)).1.mpr
      (by decide +kernel)⟩

/-- A token that expired in the earliest second that claims can name is accepted at the start of 1970. The claims are
read back from their stored form. -/
theorem expired_accepted_before_first_second :
    Json.decode (Json.encode (claimsUntil (-9223372036854775808))) =
        .ok (claimsUntil (-9223372036854775808)) ∧
      (-9223372036854775808 : Int64).toInt ≤ Revocation.sampleService.clocks.instant.seconds ∧
      (Revocation.sampleService.run (verify (claimsUntil (-9223372036854775808)).toAccessToken [.admin]).run).1 =
        .returned (.ok .admin) := by
  refine ⟨?_, by decide +kernel, rfl⟩
  with_unfolding_all rfl

end Authenticator

end Gatehouse
