/-
Berth.Auth.Oidc — bearer tokens of an OIDC provider
(`internal/auth/oidc.go`).

Verification of a token, with its signature, issuer, audience and times, is
a parameter: a token that passes it comes with its claims. What is here is
what the server makes of the claims. Of two claims with one name the later
one counts, as in the map they are decoded into.
-/
import Berth.Json.Value
import Berth.Tenant.Authorizer

namespace Berth.Auth

open Berth.Json Berth.Lease Berth.Tenant

/-- `OIDCConfig`, without the provider. -/
structure OIDCConfig where
  issuerURL : String
  audience : String
  requiredClaims : List (String × String)
  usernameClaim : String := ""
  tenantClaim : String := ""

/-- `OIDCAuthenticator`, without the verifier. -/
structure OIDCAuthenticator where
  requiredClaims : List (String × String)
  usernameClaim : String
  tenantClaim : String

/-- `defaultStr`. -/
def defaultStr (s default : String) : String := if s = "" then default else s

/-- `NewOIDCAuthenticator`, once the provider's keys are known. -/
def OIDCConfig.authenticator (cfg : OIDCConfig) : Except Err OIDCAuthenticator :=
  if cfg.issuerURL = "" then .error (.new "oidc: issuer URL is required")
  else if cfg.audience = "" then .error (.new "oidc: audience is required")
  else
    .ok { requiredClaims := cfg.requiredClaims
          usernameClaim := defaultStr cfg.usernameClaim "sub"
          tenantClaim := defaultStr cfg.tenantClaim "sub" }

/-- `claims[key]`. -/
def claim? (claims : Fields) (key : String) : Option Value := claims.reverse.lookup key

/-- `claimContains`. -/
def claimContains (claims : Fields) (key want : String) : Bool :=
  match claim? claims key with
  | some (.str s) => s == want
  | some (.arr items) => items.any fun item =>
      match item with
      | .str s => s == want
      | _ => false
  | _ => false

/-- `claimAsString`. -/
def claimAsString (claims : Fields) (key : String) : String :=
  match claim? claims key with
  | some (.str s) => s
  | some (.arr (.str s :: _)) => s
  | _ => ""

/-- `idToken.Claims` into a map. -/
def claimsOf : Value → Option Fields
  | .obj fields => some fields
  | .null => some []
  | _ => none

namespace OIDCAuthenticator

/-- `OIDCAuthenticator.Authenticate`. -/
def authenticate (verify : String → Option Value) (a : OIDCAuthenticator) (token : String) :
    Except Err Identity :=
  if token = "" then .error (.new "oidc: empty token")
  else
    match (verify token).bind claimsOf with
    | none => .error (.new "oidc: unauthorized")
    | some claims =>
      if a.requiredClaims.all (fun want => claimContains claims want.1 want.2) = false then
        .error (.new "oidc: unauthorized")
      else
        let tenant := claimAsString claims a.tenantClaim
        match validateTenant tenant with
        | .error _ => .error (.new "oidc: unauthorized")
        | .ok () =>
          .ok { holder := claimAsString claims a.usernameClaim, tenant := tenant, raw := "" }

/-- What an accepted token says. -/
theorem authenticate_ok {verify : String → Option Value} {a : OIDCAuthenticator} {token : String}
    {id : Identity} (h : a.authenticate verify token = .ok id) :
    ∃ v claims, verify token = some v ∧ claimsOf v = some claims ∧
      (∀ want ∈ a.requiredClaims, claimContains claims want.1 want.2 = true) ∧
      id.tenant = claimAsString claims a.tenantClaim := by
  unfold authenticate at h
  split at h
  · cases h
  split at h
  · cases h
  rename_i claims hclaims
  obtain ⟨v, hv, hof⟩ := Option.bind_eq_some_iff.mp hclaims
  split at h
  · cases h
  rename_i hall
  dsimp only at h
  split at h
  · cases h
  · cases h
    rw [Bool.not_eq_false, List.all_eq_true] at hall
    exact ⟨v, claims, hv, hof, hall, rfl⟩

end OIDCAuthenticator

end Berth.Auth
