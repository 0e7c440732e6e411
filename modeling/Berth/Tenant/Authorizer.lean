/-
Berth.Tenant.Authorizer — identities, tenants and the default policy on
holders (`internal/auth/auth.go`, `internal/tenant/authorizer.go`).

A tenant owns its own name and every holder below `<tenant>/`. Tenants
may not contain the separator, which is what makes ownership exclusive
(`authorizeHolder_exclusive`).
-/
import Berth.Lease.Record
import Mathlib.Data.List.TakeWhile

namespace Berth.Tenant

open Berth.Lease

/-- `auth.Identity`. -/
structure Identity where
  holder : String
  tenant : String
  raw : String
  deriving DecidableEq, Repr

/-- `auth.ValidateTenant`. -/
def validateTenant (tenant : String) : Except Err Unit :=
  if '/' ∈ tenant.toList then
    .error (.new "tenant id must not contain '/' (reserved for holder scoping)")
  else .ok ()

/-- `IdentityResolver.ResolveTenant`. -/
def identityResolver (id : Option Identity) : Except Err String :=
  match id with
  | none => .error (.new "nil identity")
  | some id =>
    if id.tenant = "" then .error (.new "identity carries no tenant") else .ok id.tenant

/-- `Authorizer`: both methods allow by returning no error. -/
structure Authorizer where
  authorizeNamespace : Option Identity → String → Except Err Unit
  authorizeHolder : Option Identity → String → Except Err Unit

namespace DefaultAuthorizer

/-- `DefaultAuthorizer.resolveTenant`. -/
def resolveTenant (id : Option Identity) : Except Err String :=
  match identityResolver id with
  | .error e => .error e
  | .ok tenant =>
    match validateTenant tenant with
    | .error e => .error e
    | .ok () => .ok tenant

/-- `holder == tenant || strings.HasPrefix(holder, tenant+"/")`. -/
def owns (tenant holder : String) : Bool :=
  holder == tenant || (tenant.toList ++ ['/']).isPrefixOf holder.toList

/-- `DefaultAuthorizer.AuthorizeNamespace`. -/
def authorizeNamespace (id : Option Identity) (_ : String) : Except Err Unit :=
  match resolveTenant id with
  | .error e => .error e
  | .ok _ => .ok ()

/-- `DefaultAuthorizer.AuthorizeHolder`. -/
def authorizeHolder (id : Option Identity) (holder : String) : Except Err Unit :=
  match resolveTenant id with
  | .error e => .error e
  | .ok tenant =>
    if owns tenant holder then .ok ()
    else .error (.new ("holder " ++ quote holder ++ " is not within tenant " ++ quote tenant))

/-- `NewDefaultAuthorizer`. -/
def new : Authorizer := ⟨authorizeNamespace, authorizeHolder⟩

end DefaultAuthorizer

/-! ## Ownership is exclusive -/

open DefaultAuthorizer

/-- What an accepted holder says about the identity. -/
theorem authorizeHolder_ok_iff {id : Option Identity} {h : String} :
    authorizeHolder id h = .ok () ↔
      ∃ i, id = some i ∧ i.tenant ≠ "" ∧ '/' ∉ i.tenant.toList ∧ owns i.tenant h = true := by
  cases id with
  | none => simp [authorizeHolder, resolveTenant, identityResolver]
  | some i =>
    by_cases he : i.tenant = ""
    · simp [authorizeHolder, resolveTenant, identityResolver, he]
    by_cases hs : '/' ∈ i.tenant.toList
    · simp [authorizeHolder, resolveTenant, identityResolver, validateTenant, he, hs]
    · cases ho : owns i.tenant h <;>
        simp [authorizeHolder, resolveTenant, identityResolver, validateTenant, he, hs, ho]

/-- The characters of an owned holder before its first slash are the
tenant. -/
theorem takeWhile_of_owns {t h : String} (hs : '/' ∉ t.toList) (ho : owns t h = true) :
    h.toList.takeWhile (· != '/') = t.toList := by
  have hall : ∀ c ∈ t.toList, (c != '/') = true := by
    intro c hc
    have hne : c ≠ '/' := fun heq => hs (heq ▸ hc)
    simpa using hne
  simp only [owns, Bool.or_eq_true, beq_iff_eq, List.isPrefixOf_iff_prefix] at ho
  rcases ho with rfl | ⟨rest, hrest⟩
  · exact List.takeWhile_eq_self_iff.mpr hall
  · rw [← hrest, List.append_assoc, List.takeWhile_append_of_pos hall]
    simp

/-- Two tenants that own one holder are the same tenant. -/
theorem owns_unique {t₁ t₂ h : String} (h₁ : '/' ∉ t₁.toList) (h₂ : '/' ∉ t₂.toList)
    (ho₁ : owns t₁ h = true) (ho₂ : owns t₂ h = true) : t₁ = t₂ := by
  have heq : t₁.toList = t₂.toList := by
    rw [← takeWhile_of_owns h₁ ho₁, takeWhile_of_owns h₂ ho₂]
  exact String.toList_inj.mp heq

/-- Identities accepted for one holder have one tenant. -/
theorem authorizeHolder_exclusive {i j : Identity} {h : String}
    (hi : authorizeHolder (some i) h = .ok ()) (hj : authorizeHolder (some j) h = .ok ()) :
    i.tenant = j.tenant := by
  obtain ⟨_, hi', _, hsi, hoi⟩ := authorizeHolder_ok_iff.mp hi
  obtain ⟨_, hj', _, hsj, hoj⟩ := authorizeHolder_ok_iff.mp hj
  cases hi'
  cases hj'
  exact owns_unique hsi hsj hoi hoj

end Berth.Tenant
