import PolicySystem.Cleanup.SplitPlanner
import PolicySystem.Faults.Run

/-!
# The signing ceremony

The `/approvals/{id}` routes (`passkey_signing/router.py`), the passkey reset (`passkey_signing/revocation.py`) and the
check of an interrupted approval (`graph_cleanup/service.py`), as steps of concurrent requests over the two tables. Each
statement that commits by itself is one step. A reset is one transaction: the rows it has written are held until it ends,
others read them as they were and wait to write them.

The WebAuthn library, SHA-256 and the registries of executors and recorders are parameters. The routes that only read are
modelled up to their check of the code; relying-party scoping and audit rows are left out.
-/

namespace PolicySystem

namespace Passkey

open Text (Json)

/-! ## Rows -/

inductive ApprovalStatus where
  | pending
  | signed
  deriving DecidableEq

/-- What the insert of a `pending_approvals` row fixes. -/
structure Approval where
  id : String
  codeHash : Bytes
  toolName : String
  normalizedArgs : Json Double
  actorSubject : String
  actorIssuer : String
  nonce : Bytes
  createdAt : ℕ
  expiresAt : ℕ
  argsSound : normalizedArgs.Sound
  nonceBytes : nonce.length = 32

/-- `PendingApprovalRow`. -/
structure PendingApprovalRow extends Approval where
  status : ApprovalStatus
  outcome : Option (Json Double)

/-- `SigningCredentialRow`. -/
structure SigningCredentialRow where
  actorSubject : String
  actorIssuer : String
  credentialId : Bytes
  publicKey : Bytes
  signCount : ℕ
  deriving DecidableEq

/-- A committed row, and the open reset that has written it. -/
structure Held (α : Type) where
  row : α
  heldBy : Option ℕ

/-- `(actor_subject, actor_issuer)`. -/
def Approval.actor (a : Approval) : String × String := (a.actorSubject, a.actorIssuer)

def SigningCredentialRow.actor (c : SigningCredentialRow) : String × String := (c.actorSubject, c.actorIssuer)

/-- Microseconds of the column default `interval '15 minutes'`. -/
def approvalLifetime : ℕ := 15 * 60 * 1000000

/-- `RECONCILE_GRACE`. -/
def reconcileGrace : ℕ := 300 * 1000000

def errorOutcome (message : String) : Json Double := dict [("error", .str message)]

/-- `_SIGNER_REFUSED_MESSAGE`. -/
def signerRefusedMessage : String :=
  "this approval was signed by someone other than the person it was issued to and can no " ++
    "longer be used; ask for a new approval"

/-- `_EXECUTOR_FAILED_MESSAGE`. -/
def executorFailedMessage : String :=
  "this action could not be completed; if you still intend to proceed, ask for a new approval"

/-- `_PASSKEY_RESET_VOID_MESSAGE`. -/
def passkeyResetVoidMessage : String :=
  "this approval was cancelled because the approver's signing passkeys were reset; " ++ "ask for a new approval"

/-! ## What the routes call -/

/-- The library calls and the registries. An assertion `A` and a registration response `R` come with the host they were
sent to. -/
structure Ceremony (A R : Type) where
  sha256 : Bytes → Bytes
  /-- `base64url_to_bytes` of the payload's `rawId`. -/
  rawId : A → Option Bytes
  /-- `verify_authentication` against a challenge, a public key and a sign count: the new sign count. -/
  verifyAuthentication : A → Bytes → Bytes → ℕ → Option ℕ
  /-- `verify_registration` against a challenge: credential id, public key and sign count. -/
  verifyRegistration : R → Bytes → Option (Bytes × Bytes × ℕ)
  hasExecutor : String → Bool
  hasRecorder : String → Bool
  /-- Tools whose interrupted approvals are settled. -/
  reconciles : String → Bool

section Challenges

variable {A R : Type} (C : Ceremony A R)

/-- What an approval asks its actor to sign. -/
def Approval.signPayload (a : Approval) : Json Double :=
  dict [("tool_name", .str a.toolName), ("normalized_args", a.normalizedArgs),
    ("actor_subject", .str a.actorSubject), ("actor_issuer", .str a.actorIssuer)]

/-- The bytes under the sign challenge. -/
def Approval.signText (a : Approval) : Bytes := canonicalText a.signPayload ++ a.nonce

/-- `_compute_sign_challenge`. -/
def computeSignChallenge (a : Approval) : Bytes := C.sha256 a.signText

/-- `enrollment_challenge`. -/
def enrollmentChallenge (a : Approval) : Bytes :=
  C.sha256 ("ps-service:passkey-signing:enroll:".toUTF8.data.toList ++ a.id.toUTF8.data.toList ++ a.nonce)

/-- `_require_pending_and_unexpired`. -/
def requirePendingAndUnexpired (row : PendingApprovalRow) (now : ℕ) : Bool :=
  decide (row.status = .pending) && decide (now ≤ row.expiresAt)

/-- `_verify_code`, of the row as read. -/
def verifyCode (row : PendingApprovalRow) (code : Bytes) (now : ℕ) : Bool :=
  decide (C.sha256 code = row.codeHash) && requirePendingAndUnexpired row now

end Challenges

/-! ## Requests, resets and checks -/

/-- A route, with the payload it reads. -/
inductive Ask (A R : Type) where
  | summary
  | enrollOptions
  | enrollVerify (response : R)
  | signOptions
  | signVerify (assertion : A)

structure Call (A R : Type) where
  id : String
  code : Bytes
  ask : Ask A R

/-- Where a request stands. -/
inductive Progress (A R : Type) where
  | idle
  | arrived (call : Call A R)
  /-- `get_by_id` has answered. -/
  | loaded (call : Call A R) (row : PendingApprovalRow)
  /-- `_verify_code` has passed. -/
  | admitted (ask : Ask A R) (approval : Approval)
  /-- `_resolve_enrolled_credential` has answered. -/
  | resolved (approval : Approval) (assertion : A) (credential : SigningCredentialRow)
  /-- Before `mark_signed`, the assertion of the approval's actor verified. -/
  | consenting (approval : Approval) (credential : SigningCredentialRow) (newSignCount : ℕ)
  /-- `mark_signed` has answered `True`. -/
  | consumed (approval : Approval) (credential : SigningCredentialRow) (newSignCount : ℕ)
  /-- Before the executor. -/
  | counted (approval : Approval)
  | executing (approval : Approval) (since : ℕ)
  /-- Before `set_outcome`. -/
  | executed (approval : Approval) (outcome : Json Double)
  /-- Before `mark_signed`, the assertion of another actor verified. -/
  | refusing (approval : Approval)
  /-- Before `set_outcome`, the approval voided. -/
  | refused (approval : Approval)
  /-- Before the insert of an enrolled credential. -/
  | enrolling (approval : Approval) (credential : SigningCredentialRow)
  | ended

/-- Where a passkey reset stands. -/
inductive Reset where
  | idle
  | voided (actor : String × String)
  | deleted (actor : String × String)
  | ended

/-- Where the check of an interrupted approval stands. -/
inductive Check where
  | idle
  /-- The row as read is signed and has no outcome. -/
  | found (approval : Approval)
  /-- The grace has passed. -/
  | overdue (approval : Approval)
  | ended

/-- What has happened. -/
inductive Fact (A : Type) where
  | verified (q : ℕ) (approval : Approval) (assertion : A) (credential : SigningCredentialRow)
  | signed (q : ℕ) (approval : Approval) (time : ℕ)
  | voidedBySigner (q : ℕ) (approval : Approval) (time : ℕ)
  | voidedByReset (x : ℕ) (approval : Approval)
  | ran (q : ℕ) (approval : Approval)

structure State (A R : Type) where
  approvals : List (Held PendingApprovalRow)
  credentials : List (Held SigningCredentialRow)
  requests : ℕ → Progress A R
  resets : ℕ → Reset
  checks : ℕ → Check
  clock : ℕ
  log : List (Fact A)

/-- One step: of the caller of a privileged tool, the clock, request `q`, reset `x` or check `o`. -/
inductive Event (A R : Type) where
  | create (approval : Approval)
  | tick (time : ℕ)
  | arrive (q : ℕ) (call : Call A R)
  | load (q : ℕ)
  | admitCall (q : ℕ)
  | resolve (q : ℕ)
  | verify (q : ℕ)
  /-- `answered`: the statement's answer reaches the request. -/
  | markSigned (q : ℕ) (answered : Bool)
  | updateSignCount (q : ℕ)
  | execute (q : ℕ)
  /-- The executor's outcome, `none` where it raised. -/
  | finish (q : ℕ) (outcome : Option (Json Double))
  | setOutcome (q : ℕ)
  | insertCredential (q : ℕ)
  /-- A call of the request fails, or its process dies. -/
  | die (q : ℕ)
  | voidPending (x : ℕ) (actor : String × String)
  | deleteCredentials (x : ℕ)
  | commit (x : ℕ)
  | rollback (x : ℕ)
  | look (o : ℕ) (id : String)
  | judge (o : ℕ)
  | settle (o : ℕ) (outcome : Json Double)

section Steps

variable {A R : Type} (C : Ceremony A R)

namespace State

variable (s : State A R)

/-- `get_by_id`. -/
def getById (id : String) : Option PendingApprovalRow :=
  (s.approvals.find? fun held => held.row.id = id).map Held.row

/-- `get_by_credential_id`. -/
def getByCredentialId (credentialId : Bytes) : Option SigningCredentialRow :=
  (s.credentials.find? fun held => held.row.credentialId = credentialId).map Held.row

def moveTo (q : ℕ) (p : Progress A R) : State A R := { s with requests := Function.update s.requests q p }

def resetTo (x : ℕ) (r : Reset) : State A R := { s with resets := Function.update s.resets x r }

def checkTo (o : ℕ) (c : Check) : State A R := { s with checks := Function.update s.checks o c }

def note (facts : List (Fact A)) : State A R := { s with log := s.log ++ facts }

/-- An update of the approvals. -/
def change (g : Held PendingApprovalRow → Held PendingApprovalRow) : State A R :=
  { s with approvals := s.approvals.map g }

def withCredentials (credentials : List (Held SigningCredentialRow)) : State A R := { s with credentials := credentials }

end State

/-- `_MARK_SIGNED`, of one row. -/
def markSigned (id : String) (held : Held PendingApprovalRow) : Held PendingApprovalRow :=
  if held.row.id = id ∧ held.row.status = .pending then { held with row := { held.row with status := .signed } } else held

/-- `_SET_OUTCOME`, of one row. -/
def setOutcome (id : String) (outcome : Json Double) (held : Held PendingApprovalRow) : Held PendingApprovalRow :=
  if held.row.id = id then { held with row := { held.row with outcome := some outcome } } else held

/-- `_VOID_PENDING_FOR_ACTOR`, of one row, before the commit. -/
def voidPending (x : ℕ) (actor : String × String) (held : Held PendingApprovalRow) : Held PendingApprovalRow :=
  if held.row.actor = actor ∧ held.row.status = .pending then { held with heldBy := some x } else held

/-- The commit of `_VOID_PENDING_FOR_ACTOR`, of one row. -/
def commitVoid (x : ℕ) (held : Held PendingApprovalRow) : Held PendingApprovalRow :=
  if held.heldBy = some x then
    ⟨{ held.row with status := .signed, outcome := some (errorOutcome passkeyResetVoidMessage) }, none⟩
  else held

/-- `_DELETE_CREDENTIALS_FOR_ACTOR`, of one row, before the commit. -/
def deleteCredential (x : ℕ) (actor : String × String) (held : Held SigningCredentialRow) : Held SigningCredentialRow :=
  if held.row.actor = actor then { held with heldBy := some x } else held

/-- What a transaction held is released. -/
def release {α : Type} (x : ℕ) (held : Held α) : Held α :=
  if held.heldBy = some x then { held with heldBy := none } else held

/-- A pending row of the id, as `_MARK_SIGNED` finds it. -/
def pendingWith (s : State A R) (id : String) : Option (Held PendingApprovalRow) :=
  s.approvals.find? fun held => decide (held.row.id = id) && decide (held.row.status = .pending)

/-- `_verify_code` and what each route goes on with. -/
def admitStep (s : State A R) (q : ℕ) (call : Call A R) (row : PendingApprovalRow) : State A R :=
  if verifyCode C row call.code s.clock then
    match call.ask with
    | .summary | .enrollOptions | .signOptions => s.moveTo q .ended
    | .signVerify assertion => s.moveTo q (.admitted (.signVerify assertion) row.toApproval)
    | .enrollVerify response =>
      match C.verifyRegistration response (enrollmentChallenge C row.toApproval) with
      | some (credentialId, publicKey, signCount) =>
        s.moveTo q (.enrolling row.toApproval ⟨row.actorSubject, row.actorIssuer, credentialId, publicKey, signCount⟩)
      | none => s.moveTo q .ended
  else s.moveTo q .ended

/-- The actor check and the verification of the assertion. -/
def verifyStep (s : State A R) (q : ℕ) (a : Approval) (assertion : A) (credential : SigningCredentialRow) : State A R :=
  let verified := C.verifyAuthentication assertion (computeSignChallenge C a) credential.publicKey credential.signCount
  if credential.actor = a.actor then
    match verified with
    | some newSignCount =>
      if C.hasExecutor a.toolName then
        (s.note [.verified q a assertion credential]).moveTo q (.consenting a credential newSignCount)
      else s.moveTo q .ended
    | none => s.moveTo q .ended
  else
    -- `_refuse_other_actor` up to its `mark_signed`
    if C.hasRecorder a.toolName && verified.isSome then s.moveTo q (.refusing a) else s.moveTo q .ended

/-- `mark_signed` of a request that goes on to `next` with the fact, where it wins. -/
def markSignedStep (s : State A R) (q : ℕ) (answered : Bool) (id : String) (fact : Fact A) (next : Progress A R) :
    Option (State A R) :=
  match pendingWith s id with
  | some held =>
    -- a row that an open reset has written is waited for
    if held.heldBy = none then
      some (((s.change (markSigned id)).note [fact]).moveTo q (if answered then next else .ended))
    else none
  | none => some (s.moveTo q .ended)

/-- What the insert of a credential does: a credential id is unique. -/
def insertStep (s : State A R) (q : ℕ) (credential : SigningCredentialRow) : Option (State A R) :=
  match s.credentials.find? fun held => held.row.credentialId = credential.credentialId with
  | some held => if held.heldBy = none then some (s.moveTo q .ended) else none
  | none => some ((s.withCredentials (s.credentials ++ [⟨credential, none⟩])).moveTo q .ended)

/-- `_UPDATE_SIGN_COUNT`, of one row. -/
def updateSignCount (credentialId : Bytes) (signCount : ℕ) (held : Held SigningCredentialRow) : Held SigningCredentialRow :=
  if held.row.credentialId = credentialId then { held with row := { held.row with signCount := signCount } } else held

/-- One step, where it is enabled. -/
def step (s : State A R) : Event A R → Option (State A R)
  | .create a =>
    if (∀ held ∈ s.approvals, held.row.id ≠ a.id) ∧ a.createdAt ≤ s.clock ∧ a.expiresAt = a.createdAt + approvalLifetime then
      some { s with approvals := s.approvals ++ [⟨⟨a, .pending, none⟩, none⟩] }
    else none
  | .tick time => if s.clock ≤ time then some { s with clock := time } else none
  | .arrive q call =>
    match s.requests q with
    | .idle => some (s.moveTo q (.arrived call))
    | _ => none
  | .load q =>
    match s.requests q with
    | .arrived call => some (s.moveTo q ((s.getById call.id).elim .ended (.loaded call)))
    | _ => none
  | .admitCall q =>
    match s.requests q with
    | .loaded call row => some (admitStep C s q call row)
    | _ => none
  | .resolve q =>
    match s.requests q with
    | .admitted (.signVerify assertion) a =>
      some (s.moveTo q (((C.rawId assertion).bind s.getByCredentialId).elim .ended (.resolved a assertion)))
    | _ => none
  | .verify q =>
    match s.requests q with
    | .resolved a assertion credential => some (verifyStep C s q a assertion credential)
    | _ => none
  | .markSigned q answered =>
    match s.requests q with
    | .consenting a credential newSignCount =>
      markSignedStep s q answered a.id (.signed q a s.clock) (.consumed a credential newSignCount)
    | .refusing a => markSignedStep s q answered a.id (.voidedBySigner q a s.clock) (.refused a)
    | _ => none
  | .updateSignCount q =>
    match s.requests q with
    | .consumed a credential newSignCount =>
      if ∀ held ∈ s.credentials, held.row.credentialId = credential.credentialId → held.heldBy = none then
        some ((s.withCredentials (s.credentials.map (updateSignCount credential.credentialId newSignCount))).moveTo q
          (.counted a))
      else none
    | _ => none
  | .execute q =>
    match s.requests q with
    | .counted a => some ((s.note [.ran q a]).moveTo q (.executing a s.clock))
    | _ => none
  | .finish q outcome =>
    match s.requests q with
    | .executing a _ => some (s.moveTo q (.executed a (outcome.getD (errorOutcome executorFailedMessage))))
    | _ => none
  | .setOutcome q =>
    match s.requests q with
    | .executed a outcome => some ((s.change (setOutcome a.id outcome)).moveTo q .ended)
    | .refused a => some ((s.change (setOutcome a.id (errorOutcome signerRefusedMessage))).moveTo q .ended)
    | _ => none
  | .insertCredential q =>
    match s.requests q with
    | .enrolling _ credential => insertStep s q credential
    | _ => none
  | .die q => some (s.moveTo q .ended)
  | .voidPending x actor =>
    match s.resets x with
    | .idle =>
      if ∀ held ∈ s.approvals, held.row.actor = actor → held.heldBy = none then
        some ((s.change (voidPending x actor)).resetTo x (.voided actor))
      else none
    | _ => none
  | .deleteCredentials x =>
    match s.resets x with
    | .voided actor =>
      if ∀ held ∈ s.credentials, held.row.actor = actor → held.heldBy = none then
        some ((s.withCredentials (s.credentials.map (deleteCredential x actor))).resetTo x (.deleted actor))
      else none
    | _ => none
  | .commit x =>
    match s.resets x with
    | .deleted _ =>
      let voided := (s.approvals.filter fun held => held.heldBy = some x).map fun held => Fact.voidedByReset x held.row.toApproval
      some ((((s.withCredentials (s.credentials.filter fun held => held.heldBy ≠ some x)).change (commitVoid x)).note
        voided).resetTo x .ended)
    | _ => none
  | .rollback x =>
    match s.resets x with
    | .idle => none
    | _ => some (((s.withCredentials (s.credentials.map (release x))).change (release x)).resetTo x .ended)
  | .look o id =>
    match s.checks o, s.getById id with
    | .idle, some row =>
      if C.reconciles row.toolName ∧ row.status = .signed ∧ row.outcome.isNone then
        some (s.checkTo o (.found row.toApproval))
      else none
    | _, _ => none
  | .judge o =>
    match s.checks o with
    | .found a => some (s.checkTo o (if a.expiresAt + reconcileGrace < s.clock then .overdue a else .ended))
    | _ => none
  | .settle o outcome =>
    match s.checks o with
    | .overdue a => some ((s.change (setOutcome a.id outcome)).checkTo o .ended)
    | _ => none

end Steps

end Passkey

end PolicySystem
