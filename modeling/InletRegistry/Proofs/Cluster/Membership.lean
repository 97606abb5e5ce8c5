import InletRegistry.Cluster.Membership

/-!
# What a node is after some calls

A node that is not clustered is not moved by any call. What a clustered node is, and where it takes the
coordinator to be, hangs on the last call alone, or on its settings if there was none: taking over
forgets every address that was known before.
-/

namespace InletRegistry.Cluster

namespace ClusterSettings

variable {c : ClusterSettings} {before after : List RoleCall} {url : String}

/-- The role of a node that has been told its role in some calls. -/
def standing (c : ClusterSettings) (calls : List RoleCall) : Role :=
  if !c.enabled then .standalone
  else match calls.getLast? with
    | some .becomeCoordinator => .coordinator
    | some (.stepDown _) => .follower
    | none =>
      match c.role with
      | .coordinator => .coordinator
      | .follower => .follower

/-- Where a follower takes the coordinator to be: at the address of the last call, or at the one of its
settings if there was no call. Others do not say. -/
def address (c : ClusterSettings) (calls : List RoleCall) : Option String :=
  match c.standing calls with
  | .follower =>
    match calls.getLast? with
    | some (.stepDown url) => url
    | some .becomeCoordinator => none
    | none => c.coordinatorUrl
  | _ => none

/-- Without a cluster a node is alone whatever it is told. -/
theorem standing_of_disabled (h : c.enabled = false) (calls : List RoleCall) :
    c.standing calls = .standalone := by
  simp only [standing, h, Bool.not_false, ↓reduceIte]

/-- An address that a node knows after it took over was given to it since. -/
theorem address_of_takeover (h : c.address (before ++ .becomeCoordinator :: after) = some url) :
    .stepDown (some url) ∈ after := by
  have hlast : (before ++ .becomeCoordinator :: after).getLast? =
      some (after.getLast?.getD .becomeCoordinator) := by
    rw [List.getLast?_append, List.getLast?_cons, Option.some_or]
  unfold address at h
  split at h
  next =>
    rw [hlast] at h
    cases hafter : after.getLast? with
    | none =>
      rw [hafter] at h
      cases h
    | some call =>
      rw [hafter, Option.getD_some] at h
      cases call with
      | becomeCoordinator => cases h
      | stepDown given =>
        obtain rfl : given = some url := h
        exact List.mem_of_getLast? hafter
  next => cases h

end ClusterSettings

namespace Membership

variable {m : Membership} {calls : List RoleCall}

theorem isClustered_heed (m : Membership) (call : RoleCall) :
    (m.heed call).isClustered = m.isClustered := by
  cases m with
  | mk role url => cases role <;> cases call <;> rfl

theorem isClustered_foldl_heed (m : Membership) (calls : List RoleCall) :
    (calls.foldl heed m).isClustered = m.isClustered := by
  induction calls generalizing m with
  | nil => rfl
  | cons call calls ih => rw [List.foldl_cons, ih, isClustered_heed]

/-- A node is a follower after a call exactly if it is clustered and was told to step down. -/
theorem role_heed_iff (m : Membership) (call : RoleCall) :
    (m.heed call).role = .follower ↔ m.isClustered = true ∧ ∃ url, call = .stepDown url := by
  cases m with
  | mk role url =>
    cases call with
    | becomeCoordinator =>
      refine ⟨?_, nofun⟩
      cases role <;> exact nofun
    | stepDown address =>
      cases role with
      | standalone => exact ⟨nofun, nofun⟩
      | coordinator | follower => exact ⟨fun _ => ⟨rfl, address, rfl⟩, fun _ => rfl⟩

/-- What a node is after some calls hangs on the last of them. -/
theorem role_foldl_heed (m : Membership) (calls : List RoleCall) (call : RoleCall) :
    ((calls ++ [call]).foldl heed m).role = .follower ↔
      m.isClustered = true ∧ ∃ url, call = .stepDown url := by
  rw [List.foldl_append, List.foldl_cons, List.foldl_nil, role_heed_iff, isClustered_foldl_heed]

/-- A node that is alone heeds no call. -/
theorem heed_of_alone (h : m.isClustered = false) (call : RoleCall) : m.heed call = m := by
  have halone : m.role = .standalone := by simpa [isClustered] using h
  cases call <;> simp only [heed, becomeCoordinator, stepDown, halone, ↓reduceIte]

/-- A clustered node is what the call says and knows what the call says. -/
theorem heed_of_clustered (h : m.isClustered = true) (call : RoleCall) :
    m.heed call = match call with
      | .becomeCoordinator => ⟨.coordinator, none⟩
      | .stepDown url => ⟨.follower, url⟩ := by
  have hclustered : m.role ≠ .standalone := by simpa [isClustered] using h
  cases call <;> simp only [heed, becomeCoordinator, stepDown, hclustered, ↓reduceIte]

theorem isClustered_ofSettings (c : ClusterSettings) : (ofSettings c).isClustered = c.enabled := by
  obtain ⟨enabled, role, url, timeout⟩ := c
  cases enabled <;> cases role <;> rfl

theorem foldl_heed_of_alone (h : m.isClustered = false) (calls : List RoleCall) :
    calls.foldl heed m = m := by
  induction calls with
  | nil => rfl
  | cons call calls ih => rw [List.foldl_cons, heed_of_alone h, ih]

/-- **What a node has been told.** After any calls its role and the address that it gives are those that
its settings and the last call say. -/
theorem foldl_heed_ofSettings (c : ClusterSettings) (calls : List RoleCall) :
    (calls.foldl heed (ofSettings c)).role = c.standing calls ∧
      (calls.foldl heed (ofSettings c)).coordinatorUrl = c.address calls := by
  unfold ClusterSettings.address
  cases henabled : c.enabled with
  | false =>
    have halone : (ofSettings c).isClustered = false := by rw [isClustered_ofSettings, henabled]
    have hrole : (ofSettings c).role = .standalone := by
      simp only [ofSettings, henabled, Bool.not_false, ↓reduceIte]
    rw [foldl_heed_of_alone halone, ClusterSettings.standing_of_disabled henabled, coordinatorUrl,
      hrole]
    exact ⟨rfl, rfl⟩
  | true =>
    rcases List.eq_nil_or_concat calls with rfl | ⟨calls, call, rfl⟩
    · unfold ClusterSettings.standing
      cases hrole : c.role <;>
        simp [ofSettings, coordinatorUrl, henabled, hrole]
    · have hclustered : (calls.foldl heed (ofSettings c)).isClustered = true := by
        rw [isClustered_foldl_heed, isClustered_ofSettings, henabled]
      rw [List.concat_eq_append, List.foldl_append, List.foldl_cons, List.foldl_nil,
        heed_of_clustered hclustered, ClusterSettings.standing, List.getLast?_concat]
      cases call <;> simp [coordinatorUrl, henabled]

end Membership

end InletRegistry.Cluster
