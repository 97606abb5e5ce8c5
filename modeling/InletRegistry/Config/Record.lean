import InletRegistry.Config.Basic
import InletRegistry.Document
import InletRegistry.Json.Basic

/-!
# Configurations as records

A configuration and its parts, read from any kind of document and written as JSON values; every
field but the ids and names of inlets and the parts of a grant may be left out.
-/

namespace InletRegistry

open InletRegistry.Text InletRegistry.Access InletRegistry.Cluster InletRegistry.Net

namespace Cluster

def ClusterSettings.ofDocument? {σ : Type} [Document σ] (s : σ) : Option ClusterSettings :=
  let d := ClusterSettings.default
  match Document.fields? ["enabled", "role", "coordinator_url", "forward_timeout_ms"] 0 s with
  | some [enabled, role, url, timeout] =>
    match Document.defaulted d.enabled Document.toBool? enabled,
        Document.defaulted d.role (Document.toChoice? AssignedRole.names) role,
        Document.optional Document.toText? url,
        Document.defaulted d.forwardTimeout (Document.toNatural? Decimal.word64) timeout with
    | some e, some r, some u, some t => some ⟨e, r, u, t⟩
    | _, _, _, _ => none
  | _ => none

def ClusterSettings.toJson (c : ClusterSettings) : Json :=
  .object [("enabled", .bool c.enabled), ("role", .text c.role.name),
    ("coordinator_url", Json.ofText? c.coordinatorUrl),
    ("forward_timeout_ms", .natural c.forwardTimeout)]

end Cluster

namespace Access

def AuthSettings.ofDocument? {σ : Type} [Document σ] (s : σ) : Option AuthSettings :=
  let d := AuthSettings.default
  match Document.fields? ["enabled", "jwt_secret", "anonymous_principal", "public_paths"] 0 s with
  | some [enabled, secret, anonymous, paths] =>
    match Document.defaulted d.enabled Document.toBool? enabled,
        Document.optional Document.toText? secret,
        Document.defaulted d.anonymousPrincipal Document.toText? anonymous,
        Document.defaulted d.publicPaths (Document.toList? Document.toText?) paths with
    | some e, some s, some a, some p => some ⟨e, s, a, p⟩
    | _, _, _, _ => none
  | _ => none

def AuthSettings.toJson (a : AuthSettings) : Json :=
  .object [("enabled", .bool a.enabled), ("jwt_secret", Json.ofText? a.jwtSecret),
    ("anonymous_principal", .text a.anonymousPrincipal),
    ("public_paths", .list (a.publicPaths.map .text))]

end Access

namespace InletSeed

def tasks? {σ : Type} [Document σ] (s : σ) : Option UInt32 :=
  (Document.toNatural? Decimal.word32 s).map UInt32.ofNat

def ofDocument? {σ : Type} [Document σ] (s : σ) : Option InletSeed :=
  match Document.fields? ["id", "name", "comments", "state", "concurrent_tasks"] 2 s with
  | some [id, name, comments, state, tasks] =>
    match Document.required Document.toText? id, Document.required Document.toText? name,
        Document.defaulted "" Document.toText? comments,
        Document.defaulted .stopped (Document.toChoice? RunState.names) state,
        Document.defaulted 1 tasks? tasks with
    | some i, some n, some c, some s, some t => some ⟨i, n, c, s, t⟩
    | _, _, _, _, _ => none
  | _ => none

def toJson (s : InletSeed) : Json :=
  .object [("id", .text s.id), ("name", .text s.name), ("comments", .text s.comments),
    ("state", .text s.state.name), ("concurrent_tasks", .natural s.concurrentTasks.toNat)]

end InletSeed

namespace Config

def fieldNames : List String :=
  ["node_id", "bind_addr", "base_url", "log_level", "write_lock_timeout_ms", "cluster", "auth",
    "audit", "grants", "ports"]

def address? {σ : Type} [Document σ] (s : σ) : Option SocketAddress :=
  (Document.toText? s).bind SocketAddress.parse?

/-- The file of the audit trail from the document of the audit settings. -/
def audit? {σ : Type} [Document σ] (s : σ) : Option (Option String) :=
  match Document.fields? ["path"] 0 s with
  | some [path] => Document.optional Document.toText? path
  | _ => none

def ofDocument? {σ : Type} [Document σ] (s : σ) : Option Config :=
  let d := Config.default
  match Document.fields? fieldNames 0 s with
  | some [nodeId, bind, base, level, timeout, cluster, auth, audit, grants, inlets] =>
    match Document.defaulted d.nodeId Document.toText? nodeId,
        Document.defaulted d.bindAddress address? bind,
        Document.defaulted d.baseUrl Document.toText? base,
        Document.defaulted d.logLevel Document.toText? level,
        Document.defaulted d.writeLockTimeout (Document.toNatural? Decimal.word64) timeout,
        Document.defaulted d.cluster ClusterSettings.ofDocument? cluster,
        Document.defaulted d.auth AuthSettings.ofDocument? auth,
        Document.defaulted d.auditPath audit? audit,
        Document.defaulted d.grants (Document.toList? Grant.ofDocument?) grants,
        Document.defaulted d.inlets (Document.toList? InletSeed.ofDocument?) inlets with
    | some n, some b, some u, some l, some t, some c, some a, some p, some g, some i =>
      some ⟨n, b, u, l, t, c, a, p, g, i⟩
    | _, _, _, _, _, _, _, _, _, _ => none
  | _ => none

def toJson (c : Config) : Json :=
  .object [("node_id", .text c.nodeId), ("bind_addr", .text c.bindAddress.text),
    ("base_url", .text c.baseUrl), ("log_level", .text c.logLevel),
    ("write_lock_timeout_ms", .natural c.writeLockTimeout), ("cluster", c.cluster.toJson),
    ("auth", c.auth.toJson), ("audit", .object [("path", Json.ofText? c.auditPath)]),
    ("grants", .list (c.grants.map Grant.toJson)),
    ("ports", .list (c.inlets.map InletSeed.toJson))]

end Config

end InletRegistry
