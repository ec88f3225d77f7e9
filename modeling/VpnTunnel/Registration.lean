import VpnTunnel.Daemon

/-!
# The table over its lifetime

A table is built and changed by five calls: `peer_add`, `peer_add_allowed_ip`, `peer_init_session`,
`peer_update_endpoint` and `peer_destroy_session`. This module follows a table through any sequence of
them, from `peer_table_init` on.

## The model

The calls are the inputs of a machine whose state is the table. A peer is named by its place in the table,
which is what a pointer from `peer_add` is; a call with a place where there is no peer cannot be made, and
does nothing. What the machine puts out are the registrations: the entry `peer_add` returned, with the key.

## The argument

Three of the calls touch sessions, endpoints and times only. Of the other two one appends a peer with a key
that no peer has, and the other appends a range that `vpn_cidr_parse` has made. So what is asked of a table,
its keys and its ranges, is asked of `Peer.config`, and that is kept or grows at an end.

## What is proved

* `tableInv_step`, `tableInv_run` — the invariant of the table, over every sequence of calls.
* `table_sound` — what follows for a table: bounds, canonical ranges, distinct keys, and lookups by key that
  find what was registered.
* `tableInv_runLoop` — the daemon keeps the invariant.
* `routing_agrees_iff` — the two directions of cryptographic routing agree exactly when no range of one peer
  overlaps a range of another.
* `overlapping_ranges` — a table where they do not.
-/

namespace VpnTunnel

open Octets

variable {β : Type} [Octet β] [DecidableEq β]

/-! ### The calls -/

/-- A call that changes a table. -/
inductive TableCall (β : Type) where
  /-- `peer_add`. -/
  | add (publicKey : Bytes β 32) (initialEndpoint : Option Endpoint)
  /-- `peer_add_allowed_ip`. -/
  | addAllowedIp (i : ℕ) (cidrStr : List (BitVec 8))
  /-- `peer_init_session`. -/
  | initSession (i : ℕ) (localIdx peerIdx : BitVec 32) (sendKey recvKey : Bytes β 32) (now now' : BitVec 64)
  /-- `peer_update_endpoint`. -/
  | updateEndpoint (i : ℕ) (newEp : Endpoint)
  /-- `peer_destroy_session`. -/
  | destroySession (i : ℕ) (slot : Slot)

/-- Change the peer a pointer leads to. -/
def PeerTable.modify (t : PeerTable β) (i : ℕ) (f : Peer β → Peer β) : PeerTable β :=
  if h : i < t.peers.length then t.update ⟨i, h⟩ (f (t.peers.get ⟨i, h⟩)) else t

/-- A call: the table after it, and the peer registered by it. -/
def callStep (t : PeerTable β) : TableCall β → PeerTable β × List (ℕ × Bytes β 32)
  | .add publicKey initialEndpoint =>
    let added := peerAdd t publicKey initialEndpoint
    (added.1, added.2.toList.map fun i => (i, publicKey))
  | .addAllowedIp i cidrStr => (t.modify i fun p => (peerAddAllowedIp p cidrStr).1, [])
  | .initSession i localIdx peerIdx sendKey recvKey now now' =>
    (t.modify i fun p => peerInitSession p localIdx peerIdx sendKey recvKey now now', [])
  | .updateEndpoint i newEp => (t.modify i fun p => (peerUpdateEndpoint p newEp).1, [])
  | .destroySession i slot => (t.modify i fun p => p.setSession slot (peerDestroySession (p.session slot)), [])

/-- The table after a sequence of calls, and the registrations. -/
def tableAfter (calls : List (TableCall β)) : PeerTable β × List (ℕ × Bytes β 32) :=
  Machine.run callStep peerTableInit calls

/-! ### What a call does -/

/-- `peer_add` refuses, for lack of room or for a key that is registered, and changes nothing; or it appends the
new peer. -/
theorem peerAdd_cases (t : PeerTable β) (publicKey : Bytes β 32) (initialEndpoint : Option Endpoint) :
    ((256 ≤ t.peers.length ∨ publicKey ∈ t.peers.map Peer.publicKey) ∧
      peerAdd t publicKey initialEndpoint = (t, none)) ∨
    (t.peers.length < 256 ∧ publicKey ∉ t.peers.map Peer.publicKey ∧
      (peerAdd t publicKey initialEndpoint).1.peers = t.peers ++ [Peer.registered publicKey initialEndpoint] ∧
      (peerAdd t publicKey initialEndpoint).2 = some t.peers.length) := by
  have hany : (t.peers.any fun p => p.publicKey = publicKey) = true ↔ publicKey ∈ t.peers.map Peer.publicKey := by
    simp
  unfold peerAdd
  split
  · next hfull => exact .inl ⟨.inl hfull, rfl⟩
  · next hroom =>
    split
    · next hdup => exact .inl ⟨.inr (hany.mp hdup), rfl⟩
    · next hnew => exact .inr ⟨Nat.lt_of_not_le hroom, mt hany.mpr hnew, rfl, rfl⟩

omit [Octet β] [DecidableEq β] in
/-- `peer_add_allowed_ip` refuses, for lack of room or for a text that does not parse, and changes nothing; or it
appends the range. -/
theorem peerAddAllowedIp_cases (p : Peer β) (cidrStr : List (BitVec 8)) :
    ((64 ≤ p.allowedIps.length ∨ ∃ rc, vpnCidrParse cidrStr = .error rc) ∧
      ∃ rc, peerAddAllowedIp p cidrStr = (p, .error rc)) ∨
    (p.allowedIps.length < 64 ∧ ∃ cidr, vpnCidrParse cidrStr = .ok cidr ∧
      (peerAddAllowedIp p cidrStr).1.config = (p.publicKey, p.allowedIps ++ [cidr]) ∧
      (peerAddAllowedIp p cidrStr).2 = .ok ()) := by
  unfold peerAddAllowedIp
  split
  · next hfull => exact .inl ⟨.inl hfull, _, rfl⟩
  · next hroom =>
    split
    · next rc hrc => exact .inl ⟨.inr ⟨rc, hrc⟩, rc, rfl⟩
    · next cidr hcidr => exact .inr ⟨Nat.lt_of_not_le hroom, cidr, hcidr, rfl, rfl⟩

omit [Octet β] [DecidableEq β] in
/-- A peer that is changed in its sessions, its endpoint or its times keeps what configuration says of it. -/
theorem PeerTable.config_modify {t : PeerTable β} {i : ℕ} {f : Peer β → Peer β} (h : ∀ p, (f p).config = p.config) :
    (t.modify i f).peers.map Peer.config = t.peers.map Peer.config := by
  unfold PeerTable.modify
  split
  · exact PeerTable.map_update Peer.config (h _)
  · rfl

/-- What a call can do to the keys and the ranges of a table: nothing, add a peer with a new key, or add a range to
a peer. -/
inductive CallCase (t t' : PeerTable β) : List (ℕ × Bytes β 32) → Prop
  /-- Nothing changes. -/
  | same (h : t'.peers.map Peer.config = t.peers.map Peer.config) : CallCase t t' []
  /-- A peer is registered. -/
  | registered {k : Bytes β 32} (hnew : k ∉ t.peers.map Peer.publicKey)
      (h : t'.peers.map Peer.config = t.peers.map Peer.config ++ [(k, [])]) : CallCase t t' [(t.peers.length, k)]
  /-- A range is added. -/
  | authorised {i : Fin t.peers.length} {cidr : Cidr} (hcidr : cidr.Canonical)
      (h : t'.peers.map Peer.config =
        (t.peers.map Peer.config).set i ((t.peers.get i).publicKey, (t.peers.get i).allowedIps ++ [cidr])) :
      CallCase t t' []

theorem callStep_cases (t : PeerTable β) (call : TableCall β) : CallCase t (callStep t call).1 (callStep t call).2 := by
  cases call with
  | add publicKey initialEndpoint =>
    rcases peerAdd_cases t publicKey initialEndpoint with ⟨-, hnone⟩ | ⟨-, hnew, hpeers, hsome⟩
    · rw [callStep, hnone]
      exact .same rfl
    · rw [callStep, hsome]
      refine .registered hnew ?_
      rw [hpeers, List.map_append]
      rfl
  | addAllowedIp i cidrStr =>
    by_cases hi : i < t.peers.length
    · rw [callStep, PeerTable.modify, dif_pos hi]
      rcases peerAddAllowedIp_cases (t.peers.get ⟨i, hi⟩) cidrStr with ⟨-, rc, hrc⟩ | ⟨-, cidr, hcidr, hconfig, -⟩
      · rw [hrc]
        exact .same (PeerTable.map_update Peer.config rfl)
      · refine .authorised (i := ⟨i, hi⟩) (canonical_of_vpnCidrParse hcidr) ?_
        rw [← hconfig]
        exact List.map_set
    · rw [callStep, PeerTable.modify, dif_neg hi]
      exact .same rfl
  | initSession =>
    refine .same (PeerTable.config_modify fun p => ?_)
    rw [peerInitSession_eq]
    rfl
  | updateEndpoint =>
    refine .same (PeerTable.config_modify fun p => ?_)
    rw [peerUpdateEndpoint_fst]
    rfl
  | destroySession i slot =>
    refine .same (PeerTable.config_modify fun p => ?_)
    cases slot <;> rfl

/-! ### The invariant -/

/-- The invariant, between the registrations so far and what configuration says of the peers: for each its key and
its ranges. -/
structure TableInv (registrations : List (ℕ × Bytes β 32)) (config : List (Bytes β 32 × List Cidr)) : Prop where
  /-- The keys are those registered, each in the entry that was returned. -/
  registered : ∀ i k, (i, k) ∈ registrations ↔ (config.map Prod.fst)[i]? = some k
  /-- No key is there twice. -/
  distinct : (config.map Prod.fst).Nodup
  /-- The ranges are canonical. -/
  canonical : ∀ peer ∈ config, ∀ cidr ∈ peer.2, cidr.Canonical

section

variable {registrations : List (ℕ × Bytes β 32)} {config : List (Bytes β 32 × List Cidr)}

omit [Octet β] [DecidableEq β]

/-- A new key is registered behind the others. -/
theorem TableInv.append (h : TableInv registrations config) {k : Bytes β 32} (hnew : k ∉ config.map Prod.fst) :
    TableInv (registrations ++ [(config.length, k)]) (config ++ [(k, [])]) := by
  have hlen : (config.map Prod.fst).length = config.length := List.length_map _
  refine ⟨fun i k' => ?_, ?_, ?_⟩
  · rw [List.mem_append, h.registered, List.mem_singleton, Prod.mk.injEq, List.map_append, List.map_singleton]
    rcases Nat.lt_trichotomy i config.length with hi | rfl | hi
    · rw [List.getElem?_append_left (by omega)]
      exact or_iff_left fun heq => Nat.ne_of_lt hi heq.1
    · rw [← hlen, List.getElem?_concat_length, List.getElem?_eq_none le_rfl, Option.some.injEq]
      simp [eq_comm]
    · rw [List.getElem?_eq_none (by omega), List.getElem?_eq_none (by rw [List.length_append]; simp; omega)]
      simp [Nat.ne_of_gt hi]
  · rw [List.map_append, List.map_singleton, ← List.concat_eq_append]
    exact h.distinct.concat hnew
  · intro peer hpeer cidr hcidr
    rcases List.mem_append.mp hpeer with hpeer | hpeer
    · exact h.canonical peer hpeer cidr hcidr
    · rw [List.mem_singleton.mp hpeer] at hcidr
      exact absurd hcidr List.not_mem_nil

/-- A peer gets a canonical range. -/
theorem TableInv.set (h : TableInv registrations config) {i : ℕ} (peer : Bytes β 32 × List Cidr)
    (hi : config[i]? = some peer) {cidr : Cidr} (hcidr : cidr.Canonical) :
    TableInv registrations (config.set i (peer.1, peer.2 ++ [cidr])) := by
  have hkeys : (config.set i (peer.1, peer.2 ++ [cidr])).map Prod.fst = config.map Prod.fst := by
    have hkey : (config.map Prod.fst)[i]? = some peer.1 := by rw [List.getElem?_map, hi, Option.map_some]
    obtain ⟨hlt, hget⟩ := List.getElem?_eq_some_iff.mp hkey
    rw [List.map_set, ← hget, List.set_getElem_self hlt]
  refine ⟨fun j k => by rw [hkeys, h.registered], by rw [hkeys]; exact h.distinct, ?_⟩
  intro peer' hpeer' cidr' hmem
  rcases List.mem_or_eq_of_mem_set hpeer' with hpeer' | rfl
  · exact h.canonical peer' hpeer' cidr' hmem
  · rcases List.mem_append.mp hmem with hmem | hmem
    · exact h.canonical peer (List.mem_of_getElem? hi) cidr' hmem
    · rwa [List.mem_singleton.mp hmem]

theorem tableInv_nil : TableInv [] ([] : List (Bytes β 32 × List Cidr)) := ⟨by simp, List.nodup_nil, nofun⟩

theorem keys_config (t : PeerTable β) : (t.peers.map Peer.config).map Prod.fst = t.peers.map Peer.publicKey := by
  rw [List.map_map]
  rfl

/-- Each call keeps the invariant. -/
theorem tableInv_step {t t' : PeerTable β} {added : List (ℕ × Bytes β 32)} (hcase : CallCase t t' added)
    (h : TableInv registrations (t.peers.map Peer.config)) :
    TableInv (registrations ++ added) (t'.peers.map Peer.config) := by
  cases hcase with
  | same heq => rwa [heq, List.append_nil]
  | registered hnew heq =>
    rw [heq, ← List.length_map Peer.config]
    exact h.append (by rwa [keys_config])
  | @authorised i cidr hcidr heq =>
    rw [heq, List.append_nil]
    exact h.set (t.peers.get i).config (by simp) hcidr

end

/-- **Every sequence of calls keeps the invariant.** -/
theorem tableInv_run (calls : List (TableCall β)) :
    TableInv (tableAfter calls).2 ((tableAfter calls).1.peers.map Peer.config) :=
  Machine.run_invariant_of_step callStep (I := fun registrations t => TableInv registrations (t.peers.map Peer.config))
    (fun _ t call h => tableInv_step (callStep_cases t call) h) calls tableInv_nil

/-- So does the daemon. -/
theorem tableInv_runLoop {registrations : List (ℕ × Bytes β 32)} (S : Sodium β) {d : Daemon β}
    (h : TableInv registrations (d.table.peers.map Peer.config)) (events : List (Event β)) :
    TableInv registrations ((runLoop S d events).1.table.peers.map Peer.config) := by
  rwa [config_run]

/-! ### Lookup by key -/

section

variable {registrations : List (ℕ × Bytes β 32)} {t : PeerTable β}

omit [Octet β]

/-- A lookup finds the entry the key was registered in. -/
theorem TableInv.find_iff (h : TableInv registrations (t.peers.map Peer.config)) {k : Bytes β 32}
    {i : Fin t.peers.length} : peerFindByPubkey t k = some i ↔ (i.val, k) ∈ registrations := by
  have hget (j : Fin t.peers.length) : (t.peers.map Peer.publicKey)[j.val]? = some (t.peers.get j).publicKey := by simp
  rw [peerFindByPubkey_eq_some, h.registered, keys_config, hget, Option.some.injEq]
  refine ⟨And.left, fun hk => ⟨hk, fun j hj hkj => ?_⟩⟩
  -- Two entries with the key would be one.
  have hdistinct := h.distinct
  rw [keys_config] at hdistinct
  have hsame : (t.peers.map Peer.publicKey)[j.val]? = (t.peers.map Peer.publicKey)[i.val]? := by
    rw [hget, hget, hkj, hk]
  exact absurd ((List.getElem?_inj (by simp) hdistinct).mp hsame) (Nat.ne_of_lt hj)

/-- A lookup finds nothing when the key was not registered. -/
theorem TableInv.find_eq_none (h : TableInv registrations (t.peers.map Peer.config)) {k : Bytes β 32} :
    peerFindByPubkey t k = none ↔ ∀ i, (i, k) ∉ registrations := by
  rw [peerFindByPubkey_eq_none, List.mem_iff_getElem?, not_exists]
  exact forall_congr' fun i => by rw [h.registered, keys_config]

end

omit [Octet β] [DecidableEq β] in
/-- Writing a peer back as it is changes nothing. -/
theorem PeerTable.update_get (t : PeerTable β) (i : Fin t.peers.length) : t.update i (t.peers.get i) = t :=
  PeerTable.ext (List.set_getElem_self i.isLt) rfl

/-- What holds of a table and the registrations made in it. -/
structure TableSound (registrations : List (ℕ × Bytes β 32)) (t : PeerTable β) : Prop where
  /-- There are at most 256 peers. -/
  peerCount_le : t.peers.length ≤ 256
  /-- Each has at most 64 ranges. -/
  allowedIps_le : ∀ p ∈ t.peers, p.allowedIps.length ≤ 64
  /-- The ranges are canonical. -/
  canonical : ∀ p ∈ t.peers, ∀ cidr ∈ p.allowedIps, cidr.Canonical
  /-- The keys are distinct. -/
  distinct : (t.peers.map Peer.publicKey).Nodup
  /-- A lookup finds the entry that was registered with the key. -/
  find : ∀ k i, peerFindByPubkey t k = some i ↔ (i.val, k) ∈ registrations
  /-- It finds none exactly when none was. -/
  find_none : ∀ k, peerFindByPubkey t k = none ↔ ∀ i, (i, k) ∉ registrations
  /-- A registration that fails leaves the table as it was. -/
  add_failed : ∀ k ep, (peerAdd t k ep).2 = none → (peerAdd t k ep).1 = t
  /-- So does a range that is refused. -/
  addAllowedIp_failed : ∀ i cidrStr rc, (peerAddAllowedIp (t.peers.get i) cidrStr).2 = .error rc →
    t.update i (peerAddAllowedIp (t.peers.get i) cidrStr).1 = t

/-- **The table is sound after every sequence of calls.** -/
theorem table_sound (calls : List (TableCall β)) : TableSound (tableAfter calls).2 (tableAfter calls).1 := by
  have hinv := tableInv_run calls
  refine ⟨PeerTable.peerCount_le _, fun p _ => p.allowedIps_le, fun p hp => ?_, ?_, fun _ _ => hinv.find_iff,
    fun _ => hinv.find_eq_none, fun k ep hnone => ?_, fun i cidrStr rc hrc => ?_⟩
  · exact hinv.canonical p.config (List.mem_map_of_mem hp)
  · rw [← keys_config]
    exact hinv.distinct
  · rcases peerAdd_cases (tableAfter calls).1 k ep with ⟨-, heq⟩ | ⟨-, -, -, hsome⟩
    · rw [heq]
    · rw [hsome] at hnone
      cases hnone
  · rcases peerAddAllowedIp_cases ((tableAfter calls).1.peers.get i) cidrStr with ⟨-, rc', heq⟩ | ⟨-, cidr, -, -, hok⟩
    · rw [heq]
      exact PeerTable.update_get _ i
    · rw [hok] at hrc
      cases hrc

/-! ### The two directions of routing -/

/-- An address is accepted from exactly the peer it is routed to. -/
def PeerTable.RoutingAgrees (t : PeerTable β) : Prop :=
  ∀ x i, peerAllowsSourceIp (t.peers.get i) x = true ↔ peerFindByDestIp t x = some i

/-- No range of one peer overlaps a range of another. -/
def PeerTable.RangesDisjoint (t : PeerTable β) : Prop :=
  ∀ i j, i ≠ j → ∀ c ∈ (t.peers.get i).allowedIps, ∀ c' ∈ (t.peers.get j).allowedIps, ¬ c.Overlaps c'

section

omit [Octet β] [DecidableEq β]

/-- Two peers with canonical ranges may use a common address exactly when two of their ranges overlap. -/
theorem exists_allows_allows_iff {p p' : Peer β} (hp : ∀ c ∈ p.allowedIps, c.Canonical)
    (hp' : ∀ c ∈ p'.allowedIps, c.Canonical) :
    (∃ x, peerAllowsSourceIp p x = true ∧ peerAllowsSourceIp p' x = true) ↔
      ∃ c ∈ p.allowedIps, ∃ c' ∈ p'.allowedIps, c.Overlaps c' := by
  simp only [peerAllowsSourceIp, List.any_eq_true]
  constructor
  · rintro ⟨x, ⟨c, hc, hx⟩, c', hc', hx'⟩
    exact ⟨c, hc, c', hc', (exists_match_match_iff (hp c hc) (hp' c' hc')).mp ⟨x, hx, hx'⟩⟩
  · rintro ⟨c, hc, c', hc', hover⟩
    obtain ⟨x, hx, hx'⟩ := (exists_match_match_iff (hp c hc) (hp' c' hc')).mpr hover
    exact ⟨x, ⟨c, hc, hx⟩, c', hc', hx'⟩

/-- The first peer that may use an address is the only one, for every address, when no two peers share one. -/
theorem PeerTable.routingAgrees_iff (t : PeerTable β) : t.RoutingAgrees ↔
    ∀ i j, i ≠ j →
      ¬ ∃ x, peerAllowsSourceIp (t.peers.get i) x = true ∧ peerAllowsSourceIp (t.peers.get j) x = true := by
  constructor
  · rintro hagree i j hij ⟨x, hi, hj⟩
    exact hij (Option.some.inj (((hagree x i).mp hi).symm.trans ((hagree x j).mp hj)))
  · intro hdisjoint x i
    rw [peerFindByDestIp_eq_some]
    refine ⟨fun hi => ⟨hi, fun j hji => ?_⟩, And.left⟩
    exact Bool.eq_false_iff.mpr fun hj => hdisjoint j i (ne_of_lt hji) ⟨x, hj, hi⟩

/-- Where the ranges are canonical, that can be read off them. -/
theorem TableInv.routingAgrees_iff {registrations : List (ℕ × Bytes β 32)} {t : PeerTable β}
    (h : TableInv registrations (t.peers.map Peer.config)) : t.RoutingAgrees ↔ t.RangesDisjoint := by
  have hcanonical (i : Fin t.peers.length) : ∀ c ∈ (t.peers.get i).allowedIps, c.Canonical :=
    h.canonical (t.peers.get i).config (List.mem_map_of_mem (List.get_mem _ i))
  rw [PeerTable.routingAgrees_iff]
  refine forall_congr' fun i => forall_congr' fun j => imp_congr_right fun _ => ?_
  rw [exists_allows_allows_iff (hcanonical i) (hcanonical j)]
  simp only [not_exists, not_and]

end

/-- **Inbound and outbound routing agree exactly when no range of one peer overlaps a range of another**, in every
table that calls can make. Outbound, an address goes to the first peer that may use it. -/
theorem routing_agrees_iff (calls : List (TableCall β)) :
    (∀ x i, peerFindByDestIp (tableAfter calls).1 x = some i ↔
      peerAllowsSourceIp ((tableAfter calls).1.peers.get i) x = true ∧
        ∀ j < i, peerAllowsSourceIp ((tableAfter calls).1.peers.get j) x = false) ∧
    ((tableAfter calls).1.RoutingAgrees ↔ (tableAfter calls).1.RangesDisjoint) :=
  ⟨fun _ _ => peerFindByDestIp_eq_some, (tableInv_run calls).routingAgrees_iff⟩

/-- Two peers: the first may use every address, the second 10.0.0.2. -/
def overlappingCalls : List (TableCall (BitVec 8)) :=
  [.add (List.Vector.replicate 32 1) none, .addAllowedIp 0 (CString.ofText "0.0.0.0/0"),
    .add (List.Vector.replicate 32 2) none, .addAllowedIp 1 (CString.ofText "10.0.0.2/32")]

/-- **An address is accepted from one peer and routed to another**: 10.0.0.2, when a peer with 0.0.0.0/0 was registered
before the one with 10.0.0.2/32. -/
theorem overlapping_ranges : ∃ i j, i ≠ j ∧
    peerAllowsSourceIp ((tableAfter overlappingCalls).1.peers.get i) 0x0a000002 = true ∧
    peerFindByDestIp (tableAfter overlappingCalls).1 0x0a000002 = some j :=
  ⟨⟨1, by decide +kernel⟩, ⟨0, by decide +kernel⟩, by decide, by decide +kernel, by decide +kernel⟩

end VpnTunnel
