import Verity.Model.AclCorrection
import Verity.Model.Principals
import Verity.Model.Rebac
import Verity.Model.Revocation

/-!
# From a handle to a scope

`AppState::scope_for`, which every scoped read goes through: the payload of a verified
handle becomes the scope that filters the read. Three stages follow one another: the ceiling
is clamped when there is no permission service, the revocation plane subtracts tokens, and
the staleness fence replaces the principals when the watch cannot be trusted.

The fence allocates tokens for principals it sees for the first time, so the principal table
is returned with the scope. A refusal leaves it unchanged: nothing is written before the
last call that can fail.
-/

set_option autoImplicit false

namespace Verity.Model

/-! ## The watch status

The in-process flags of the ReBAC watch that the read path consults: whether the watch is
on, connected, behind a gap, and when its cursor last moved. Uptime is whole seconds since
the process started.
-/

/-- The flags `isStale` reads. The counters and texts of the status page are left out.
SOURCE: rebac_watch.rs:127-148 -/
structure WatchStatus where
  enabled : Bool
  connected : Bool
  degraded : Bool
  lastAdvanceSecs : Nat
deriving DecidableEq, Repr

namespace WatchStatus

/-- SOURCE: rebac_watch.rs:150-164 -/
def new : WatchStatus where
  enabled := false
  connected := false
  degraded := false
  lastAdvanceSecs := 0

/-- Zero stays reserved for `never`.
SOURCE: rebac_watch.rs:190-194 -/
def markAdvance (w : WatchStatus) (secsSinceStart : Nat) : WatchStatus :=
  { w with lastAdvanceSecs := secsSinceStart + 1 }

def setConnected (w : WatchStatus) (connected : Bool) : WatchStatus := { w with connected }

/-- A gap latches until the process restarts.
SOURCE: rebac_watch.rs:245-249 -/
def markGap (w : WatchStatus) : WatchStatus := { w with degraded := true }

/-- SOURCE: rebac_watch.rs:199-205 -/
def lagSecondsCached (w : WatchStatus) (secsSinceStart : Nat) : Option Nat :=
  if w.lastAdvanceSecs = 0 then none else some (secsSinceStart + 1 - w.lastAdvanceSecs)

/-- SOURCE: rebac_watch.rs:226-237 -/
def isStale (w : WatchStatus) (boundSecs secsSinceStart : Nat) : Bool :=
  if !w.enabled then false
  else if w.degraded || !w.connected then true
  else
    match w.lagSecondsCached secsSinceStart with
    | none => true
    | some lag => decide (boundSecs < lag)

end WatchStatus

/-! ## The scope of a handle -/

/-- What `scope_for` reads of the server's state: its configuration, the watch flags and the
tables. -/
structure AppState where
  rebac : Option SpiceDb
  allowRestrictedWithoutRebac : Bool
  watch : WatchStatus
  watchStalenessFenceSecs : Nat
  principals : PrincipalTable
  revocations : RevocationTables

/-- The two clocks of a call: wall time, and seconds since the process started. -/
structure Clock where
  now : Time
  secsSinceStart : Nat
deriving DecidableEq, Repr

namespace AppState

/-- SOURCE: main.rs:635-668 -/
def liveResolvedTokens (st : AppState) (db : SpiceDb) (payload : ScopePayload) (subject : String)
    (clock : Clock) : Except HandlerError (PrincipalTable × List PrincipalToken) :=
  match parsePrincipal subject with
  | some (.user, name) =>
    match db.userGroups payload.tenantId name with
    | .error e => .error ⟨500, e.text⟩
    | .ok groups =>
      let (table, mappings) :=
        st.principals.upsertPrincipalTokens payload.tenantId (subject :: groups)
      .ok (table, st.revocations.subtract payload.tenantId (mappings.map Prod.snd)
        payload.issuedAt clock.now)
  | _ => .error ⟨422, "scope subject is not a user principal"⟩

/-- SOURCE: main.rs:588-612 -/
def fenceStaleScope (st : AppState) (payload : ScopePayload) (scope : Scope) (clock : Clock) :
    Except HandlerError (PrincipalTable × Scope) :=
  if !st.watch.isStale st.watchStalenessFenceSecs clock.secsSinceStart then
    .ok (st.principals, scope)
  else
    match st.rebac, payload.subject with
    | some db, some subject => do
        let (table, fresh) ← st.liveResolvedTokens db payload subject clock
        pure (table, { scope with principals := fresh })
    | _, _ => .ok (st.principals, { scope with principals := [] })

/-- The ceiling a read runs under.
SOURCE: main.rs:542-545 -/
def readCeiling (st : AppState) (ceiling : Confidentiality) : Confidentiality :=
  if st.rebac.isNone && !st.allowRestrictedWithoutRebac then min ceiling .confidential
  else ceiling

/-- SOURCE: main.rs:532-573 -/
def scopeFor (st : AppState) (payload : ScopePayload) (clock : Clock) :
    Except HandlerError (PrincipalTable × Scope) :=
  let scope := payload.toScope
  let scope := { scope with maxConfidentiality := st.readCeiling scope.maxConfidentiality }
  let scope := { scope with
    principals := st.revocations.subtract scope.tenantId scope.principals payload.issuedAt
      clock.now }
  st.fenceStaleScope payload scope clock

end AppState

end Verity.Model
