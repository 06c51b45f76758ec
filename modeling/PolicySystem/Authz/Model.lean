import PolicySystem.Faults.Run
import PolicySystem.Sql.ReadCommitted

/-!
# Granting and revoking access roles

`grant_role`, `revoke_role` and `resolve_active_roles` as statements of concurrent transactions on the table
`access_role_assignments` and the audit log.

* `grantRbac`, `revokeRbac`, `blockSelfTarget`, `enforceSystemOwnerFloor`: the rules;
* `Job`: a transaction that writes, `Job.statements` its statements;
* `Phase`: where a call stands, `advance` its next statement;
* `step`: the calls of many threads interleaved.
-/

namespace PolicySystem.Authz

open Sql Interleaved

/-- The closed set of operational access-control roles. -/
inductive AccessRole where
  | authenticatedUser
  | systemOwner
  | systemAdmin
  | policyManager
  | complianceOfficer
  deriving DecidableEq, Repr

/-- A role's wire name. -/
def AccessRole.value : AccessRole → String
  | authenticatedUser => "AuthenticatedUser"
  | systemOwner => "SystemOwner"
  | systemAdmin => "SystemAdmin"
  | policyManager => "PolicyManager"
  | complianceOfficer => "ComplianceOfficer"

def AccessRole.all : List AccessRole := [authenticatedUser, systemOwner, systemAdmin, policyManager, complianceOfficer]

/-- `AccessRole(value)`. -/
def AccessRole.ofValue (value : String) : Option AccessRole := all.find? (·.value = value)

/-- A verified `(sub, iss)` identity. -/
structure Principal where
  subject : String
  issuer : String
  deriving DecidableEq, Repr

/-- An assignment, by the unique key of its row. -/
abbrev Key := Principal × AccessRole

inductive Action where
  | grant
  | revoke
  deriving DecidableEq, Repr

/-! ## Rules -/

/-- Which roles `grant_role` accepts, and which roles the actor must hold to grant each. -/
def grantRbac : AccessRole → Option (Finset AccessRole)
  | .systemAdmin => some {.systemOwner}
  | .policyManager => some {.systemOwner, .systemAdmin}
  | .systemOwner => some {.systemOwner}
  | .complianceOfficer => some {.systemOwner, .systemAdmin}
  | .authenticatedUser => none

/-- Which roles `revoke_role` accepts, and which roles the actor must hold to revoke each. -/
def revokeRbac : AccessRole → Option (Finset AccessRole)
  | .systemAdmin => some {.systemOwner}
  | .policyManager => some {.systemOwner, .systemAdmin}
  | .systemOwner => some {.systemOwner, .systemAdmin}
  | .complianceOfficer => some {.systemOwner, .systemAdmin}
  | .authenticatedUser => none

def rbac : Action → AccessRole → Option (Finset AccessRole)
  | .grant => grantRbac
  | .revoke => revokeRbac

/-- The facts one rule needs. -/
structure AccessRuleContext where
  actor : Principal
  target : Principal
  accessRole : AccessRole
  action : Action
  activeSystemOwnerCount : ℕ
  actorIsSystemOwner : Bool := false

structure AccessRuleResult where
  allowed : Bool
  reason : Option String

/-- Block a caller from granting or revoking their own access roles. -/
def blockSelfTarget (ctx : AccessRuleContext) : AccessRuleResult :=
  if ctx.actor ≠ ctx.target then ⟨true, none⟩
  else if ctx.actorIsSystemOwner ∧ ¬ (ctx.action = .revoke ∧ ctx.accessRole = .systemOwner) then ⟨true, none⟩
  else ⟨false, some "a caller may not grant or revoke their own access roles"⟩

/-- Block a revoke that would remove the last remaining active `SystemOwner`. -/
def enforceSystemOwnerFloor (ctx : AccessRuleContext) : AccessRuleResult :=
  if ctx.activeSystemOwnerCount ≤ 1 then ⟨false, some "this action would leave zero active SystemOwners"⟩
  else ⟨true, none⟩

/-- `_SYSTEM_OWNER_FLOOR`. -/
def systemOwnerFloor : ℕ := 1

/-! ## Calls -/

/-- `authz_bootstrap_owner_subject`, `authz_bootstrap_owner_issuer` and the process's own issuer. -/
structure Config where
  bootstrapOwner : Principal
  issuer : String

/-- A call as it arrives. -/
inductive Request where
  | resolve (principal : Principal)
  | grantRole (actor : Principal) (targetSubject accessRole : String)
  | revokeRole (actor : Principal) (targetSubject accessRole : String)

/-- What a call does once the caller's roles are resolved. -/
inductive Purpose where
  | resolve
  | change (action : Action) (key : Key)
  deriving DecidableEq

/-- A call of a caller. -/
structure Task where
  actor : Principal
  purpose : Purpose
  deriving DecidableEq

/-- `_parse_grantable_access_role`. -/
def parseGrantableAccessRole (accessRole : String) (rbac : AccessRole → Option (Finset AccessRole)) : Option AccessRole :=
  (AccessRole.ofValue accessRole).filter fun role => (rbac role).isSome

def Request.task (cfg : Config) : Request → Option Task
  | .resolve principal => some ⟨principal, .resolve⟩
  | .grantRole actor targetSubject accessRole =>
    (parseGrantableAccessRole accessRole grantRbac).map fun role =>
      ⟨actor, .change .grant (⟨targetSubject, cfg.issuer⟩, role)⟩
  | .revokeRole actor targetSubject accessRole =>
    (parseGrantableAccessRole accessRole revokeRbac).map fun role =>
      ⟨actor, .change .revoke (⟨targetSubject, cfg.issuer⟩, role)⟩

def Request.caller : Request → Principal
  | .resolve principal => principal
  | .grantRole actor _ _ => actor
  | .revokeRole actor _ _ => actor

inductive ReasonCode where
  | accessDenied
  | selfGrantBlocked
  | selfRevokeBlocked
  | systemOwnerFloorViolation
  deriving DecidableEq, Repr

/-- An access-role event of the audit log. The target is named by its subject alone. -/
inductive RoleEvent where
  | bootstrap (subject : String)
  | bootstrapRejected (subject : String)
  | applied (action : Action) (actor : Principal) (target : String) (accessRole : AccessRole)
  | rejected (action : Action) (actor : Principal) (target : String) (accessRole : AccessRole) (reason : ReasonCode)
  deriving DecidableEq, Repr

/-! ## Transactions -/

inductive Statement where
  | insert (key : Key)
  | delete (key : Key)
  | record (event : RoleEvent)

/-- A transaction that writes. -/
inductive Job where
  | found (task : Task)
  | bootstrap (task : Task)
  | bootstrapRejected (task : Task)
  | change (actor : Principal) (action : Action) (key : Key)
  | reject (actor : Principal) (action : Action) (key : Key) (reason : ReasonCode)
  deriving DecidableEq

/-- The event of a job. -/
def Job.event : Job → Option RoleEvent
  | .found _ => none
  | .bootstrap task => some (.bootstrap task.actor.subject)
  | .bootstrapRejected task => some (.bootstrapRejected task.actor.subject)
  | .change actor action key => some (.applied action actor key.1.subject key.2)
  | .reject actor action key reason => some (.rejected action actor key.1.subject key.2 reason)

/-- The statements that change rows. -/
def Job.edits : Job → List Statement
  | .bootstrap task => [.insert (task.actor, .authenticatedUser), .insert (task.actor, .systemOwner)]
  | .change _ .grant key => [.insert key]
  | .change _ .revoke key => [.delete key]
  | _ => []

/-- The rows change first; the event is recorded on the same cursor. -/
def Job.statements (job : Job) : List Statement := job.edits ++ job.event.toList.map .record

inductive Lock where
  | bootstrap
  | systemOwnerFloor
  deriving DecidableEq

abbrev RoleDb := Db Key RoleEvent Lock

/-- Where a call stands. -/
inductive Phase where
  | idle
  /-- `active_roles_for`. -/
  | reading (task : Task)
  /-- `bootstrap_first_owner`: the advisory lock, then the look at the table. -/
  | locking (task : Task)
  | checking (task : Task)
  /-- `count_active_system_owners` before the revoke of an owner. -/
  | counting (actor : Principal) (key : Key)
  /-- `_revoke_system_owner`: the advisory lock, then the recount. -/
  | floorLocking (actor : Principal) (key : Key)
  | recounting (actor : Principal) (key : Key)
  /-- A transaction with the statements to come; it commits after the last one. -/
  | writing (job : Job) (todo : List Statement)
  /-- A delete that has its snapshot and waits for the row. -/
  | deleting (job : Job) (key : Key) (saw : Option ℕ) (todo : List Statement)

/-- A transaction at its first statement. -/
def Phase.begin (job : Job) : Phase := .writing job job.statements

/-- A call that arrives, unless its role is refused at once. -/
def Phase.arrive : Option Task → Phase
  | some task => .reading task
  | none => .idle

/-- The roles persisted for a principal. -/
def activeRolesFor (rows : Finset Key) (principal : Principal) : Finset AccessRole :=
  (rows.filter (·.1 = principal)).image Prod.snd

/-- The rows of `SYSTEM_OWNER`. -/
def systemOwners (rows : Finset Key) : Finset Key := rows.filter (·.2 = .systemOwner)

def countActiveSystemOwners (rows : Finset Key) : ℕ := (systemOwners rows).card

/-- A call after the caller's roles are resolved: the role check, then the rule against changing one's own roles. -/
def Task.resolved (task : Task) (active : Finset AccessRole) : Phase :=
  match task.purpose with
  | .resolve => .idle
  | .change action key =>
    if ((rbac action key.2).getD ∅ ∩ active) = ∅ then .begin (.reject task.actor action key .accessDenied)
    else if (blockSelfTarget ⟨task.actor, key.1, key.2, action, 0, .systemOwner ∈ active⟩).allowed = false then
      .begin (.reject task.actor action key
        (match action with | .grant => .selfGrantBlocked | .revoke => .selfRevokeBlocked))
    else if action = .revoke ∧ key.2 = .systemOwner then .counting task.actor key
    else .begin (.change task.actor action key)

/-- What follows a commit. -/
def Job.next : Job → Phase
  | .found task => task.resolved {.authenticatedUser}
  | .bootstrapRejected task => task.resolved {.authenticatedUser}
  | .bootstrap task => task.resolved {.authenticatedUser, .systemOwner}
  | .change .. => .idle
  | .reject .. => .idle

/-- `bootstrap_first_owner` under its lock. -/
def bootstrapJob (cfg : Config) (rows : Finset Key) (task : Task) : Job :=
  if rows ≠ ∅ then .found task
  else if task.actor ≠ cfg.bootstrapOwner then .bootstrapRejected task
  else .bootstrap task

/-- The next statement of a call; `none` while it waits for a lock. -/
def advance (cfg : Config) (db : RoleDb) (i : ℕ) : Phase → Option (RoleDb × Phase)
  | .idle => none
  | .reading task =>
    let existing := activeRolesFor db.rows task.actor
    some (db, if existing ≠ ∅ then task.resolved (existing ∪ {.authenticatedUser}) else .locking task)
  | .locking task => (db.acquire i .bootstrap).map (·, .checking task)
  | .checking task => some (db, .begin (bootstrapJob cfg db.rows task))
  | .counting actor key =>
    let count := countActiveSystemOwners db.rows
    some (db, if (enforceSystemOwnerFloor ⟨actor, key.1, key.2, .revoke, count, false⟩).allowed = false then
        .begin (.reject actor .revoke key .systemOwnerFloorViolation)
      else .floorLocking actor key)
  | .floorLocking actor key => (db.acquire i .systemOwnerFloor).map (·, .recounting actor key)
  | .recounting actor key =>
    if countActiveSystemOwners db.rows ≤ systemOwnerFloor then
      some (db.rollback i, .begin (.reject actor .revoke key .systemOwnerFloorViolation))
    else some (db, .begin (.change actor .revoke key))
  | .writing job (.insert key :: todo) => (db.insert i key).map (·, .writing job todo)
  | .writing job (.delete key :: todo) => some (db, .deleting job key (db.seen key) todo)
  | .writing job (.record event :: todo) => (db.append i event).map (·, .writing job todo)
  | .writing job [] => some (db.commit i, job.next)
  | .deleting job key saw todo => (db.delete i key saw).map (·, .writing job todo)

/-! ## Interleaved calls -/

/-- The database and what each thread is doing. -/
structure World where
  db : RoleDb
  phase : ℕ → Phase

inductive Event where
  | start (i : ℕ) (request : Request)
  | step (i : ℕ)
  /-- The connection fails: the transaction is rolled back. -/
  | abort (i : ℕ)

/-- The empty role table. -/
def World.start : World := ⟨.empty, fun _ => .idle⟩

def step (cfg : Config) (w : World) : Event → Option World
  | .start i request =>
    match w.phase i with
    | .idle => some { w with phase := Function.update w.phase i (.arrive (request.task cfg)) }
    | _ => none
  | .step i => (advance cfg w.db i (w.phase i)).map fun r => ⟨r.1, Function.update w.phase i r.2⟩
  | .abort i => some ⟨w.db.rollback i, Function.update w.phase i .idle⟩

/-- A transaction that commits, with the rows it finds and the changes it makes. -/
structure Commit where
  rows : Finset Key
  job : Job
  pending : List (Key × Change)

/-- The commit that an event makes. -/
def committed (w : World) : Event → List Commit
  | .step i => match w.phase i with
    | .writing job [] => [⟨w.db.rows, job, (w.db.tx i).pending⟩]
    | _ => []
  | _ => []

/-- The commits of a run, in their order. -/
def commits (cfg : Config) (history : List Event) : List Commit := observed (step cfg) committed .start history

end PolicySystem.Authz
