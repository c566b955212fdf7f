import Lok.Tokens

/-!
# Cutting off

An operator rejects one installation of an app, or revokes every session of an
organization. Refresh tokens are marked revoked, mandates are withdrawn, and the approved
codes of a rejected app are deleted. None of it is one transaction.
-/

namespace Lok

open Checks

namespace DB

variable (db : DB)

/-- `enrollment_clients`: the clients of one installation, in whatever hub. -/
def enrollmentClients (membership : Pk) (organization : Pk) (identifier : String) (node : Option Pk) : List Pk :=
  db.clients.pks fun _ c => c.membership == some membership && c.node == node
    && c.release.any fun r => r.organization == organization && r.identifier == identifier

def rejectAppInstallation (client : Pk) : DB × Answer Unit :=
  match db.clients.row client with
  | none => (db, refuse .doesNotExist "matching query does not exist.")
  | some c =>
    match c.mandate with
    | some m => db.orElseSame ((db.revokeMandate m .revoked).map fun d => (d, ()))
    | none =>
      match c.release, c.membership with
      | some r, some membership =>
        let siblings := db.enrollmentClients membership r.organization r.identifier c.node
        match (db.revokeTokensOf siblings).revokeIssuedBy siblings with
        | (d, .error e) => (d, .error e)
        | (d, .ok ()) =>
          -- The siblings are asked for again: revoking may have deleted some.
          let left := d.enrollmentClients membership r.organization r.identifier c.node
          let codes := d.deviceCodes.pks fun _ code => left.contains code.client
          (d.delete .deviceCode (codes.map fun k => ⟨.deviceCode, k⟩) none, .ok ())
      | _, _ => (db.revokeTokensOf [client]).revokeIssuedBy [client]

/-- `revoke_client_sessions`: by whoever approved the client, or an owner or admin. -/
def revokeClientSessions (user client : Pk) : DB × Answer Unit :=
  match db.clients.row client with
  | none => (db, .error denied)
  | some c =>
    if ((c.membership.bind db.memberships.row).any (·.user == user)) || c.organization.any
      (db.isOwnerOrAdmin user) then
      db.rejectAppInstallation client
    else (db, .error denied)

def organizationClients (organization : Pk) : List Pk :=
  db.clients.pks fun _ c => c.organization == some organization

/-- `revoke_organization_sessions`, the kill switch. -/
def revokeOrganizationSessions (user organization : Pk) : DB × Answer Unit :=
  match db.organizations.row organization with
  | none => (db, .error denied)
  | some _ =>
    if db.isOwnerOrAdmin user organization then
      (db.revokeTokensOf (db.organizationClients organization)).revokeOrganizationMandates organization
    else (db, .error denied)

end DB

end Lok
