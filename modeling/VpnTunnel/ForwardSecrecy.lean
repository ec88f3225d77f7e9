import VpnTunnel.Secrecy
import VpnTunnel.SymbolicSodium

/-!
# Forward secrecy

"Forward Secrecy: Ephemeral keys are securely zeroized immediately following session key derivation."
Who records the traffic and gets hold of the static private keys afterwards then cannot compute the
transport keys. This module proves it in the symbolic library, for every run of the handshake and every
finite sequence of steps of the eavesdropper.

## The model

Octets are the terms of `Symbol`: a ciphertext opens under its key only, and a shared secret is computed
from one of the two private keys. What the eavesdropper can do is call the functions of the library
(`Attack`).

## The argument

Some private keys are hidden. `Symbol.Safe` says of a term that it can be known without them: a digest if
everything hashed can, a sealed octet if what is sealed can or the key cannot, a shared secret if one
of the two private keys can. The safe terms are a set as `Sodium.Secrecy` asks for.

## What is proved

* `symbolicSodium_secrecy` — the safe terms keep the rest secret.
* `forward_secrecy` — the transport keys of a run cannot be derived.
-/

namespace VpnTunnel

open Octets VpnTunnel.Symbol

/-! ### What can be known without the hidden keys -/

/-- A term that can be known without the private keys whose names are hidden. -/
def Symbol.Safe (hidden : Set ℕ) : Symbol → Prop
  | byte _ => True
  | priv name _ => name ∉ hidden
  | pub _ _ => True
  | secret a b _ => a.Safe hidden ∨ b.Safe hidden
  | digest _ msg key _ => msg.Safe hidden ∧ key.Safe hidden
  | sealed key _ _ m _ => key.Safe hidden → m.Safe hidden
  | nil => True
  | cons x xs => x.Safe hidden ∧ xs.Safe hidden

/-- The safe terms. -/
def safeSymbols (hidden : Set ℕ) : Set Symbol := {x | x.Safe hidden}

variable {hidden : Set ℕ}

/-- A string is safe when its octets are. -/
theorem safe_ofOctets {l : List Symbol} : (ofOctets l).Safe hidden ↔ Within (safeSymbols hidden) l := by
  induction l with
  | nil => exact ⟨fun _ => within_nil, fun _ => trivial⟩
  | cons x xs ih =>
    rw [ofOctets, Symbol.Safe, ih]
    exact List.forall_mem_cons.symm

/-- The octets of something are safe when each is. -/
theorem within_take {n : ℕ} {f : ℕ → Symbol} (h : ∀ i, (f i).Safe hidden) :
    Within (safeSymbols hidden) (take n f).toList := by
  intro x hx
  obtain ⟨i, -, rfl⟩ := mem_take.mp hx
  exact h i

/-- A shared secret is safe when one of the two strings is. -/
theorem safe_of_mem_shared {a b x : Symbol} (hx : x ∈ (shared a b).toList) :
    x.Safe hidden ↔ a.Safe hidden ∨ b.Safe hidden := by
  obtain ⟨i, -, rfl⟩ := mem_take.mp hx
  split
  · exact Iff.rfl
  · exact Or.comm

/-- **The safe terms keep the rest secret.** -/
theorem symbolicSodium_secrecy (hidden : Set ℕ) : symbolicSodium.Secrecy (safeSymbols hidden) where
  byte _ := trivial
  hash hmsg hkey := within_take fun _ => ⟨safe_ofOctets.mpr hmsg, safe_ofOctets.mpr hkey⟩
  of_hash hx hsafe := by
    obtain ⟨i, -, rfl⟩ := mem_take.mp hx
    exact ⟨safe_ofOctets.mp hsafe.1, safe_ofOctets.mp hsafe.2⟩
  encrypt key nonce ad m hm :=
    ⟨within_take fun _ _ => safe_ofOctets.mpr hm, within_take fun _ _ => safe_ofOctets.mpr hm⟩
  decrypt {n key nonce ad c m tag} hkey htag hopens := by
    -- the tag is the one that sealing the plaintext gives, and its octets hold the plaintext
    have henc : encrypt key nonce ad m = (c, tag) := of_decide_eq_true (Option.filter_eq_some_iff.mp hopens).2
    have hoctet : sealed (ofOctets key.toList) (ofOctets nonce.toList) (ofOctets ad) (ofOctets m.toList) n ∈
        tag.toList := by
      have htageq : (encrypt key nonce ad m).2 = tag := congrArg Prod.snd henc
      rw [← htageq]
      exact mem_take.mpr ⟨0, by decide, rfl⟩
    have hsafe := htag _ hoctet
    exact safe_ofOctets.mp (hsafe (safe_ofOctets.mpr hkey))
  pub _ := within_take fun _ => trivial
  dh {a p z} ha hz := by
    intro x hx
    simp only [symbolicSodium] at hz
    split at hz
    · next b _ _ =>
      split at hz
      · obtain rfl := Option.some.inj hz
        exact (safe_of_mem_shared hx).mpr (.inl (safe_ofOctets.mpr ha))
      · cases hz
    · cases hz
  of_dh {a b z x} hz hx hsafe := by
    rw [symbolicSodium_scalarmult] at hz
    obtain rfl := Option.some.inj hz
    exact ((safe_of_mem_shared hx).mp hsafe).imp safe_ofOctets.mp safe_ofOctets.mp

/-- A hidden private key is not safe, and one that is not hidden is. -/
theorem within_privateKey {name : ℕ} :
    Within (safeSymbols hidden) (privateKey name).toList ↔ name ∉ hidden :=
  ⟨fun h => h (priv name 0) (mem_take.mpr ⟨0, by decide, rfl⟩), fun h => within_take fun _ => h⟩

/-! ### The eavesdropper -/

/-- The static private keys of a run were drawn, and not as one of the hidden ones. -/
def HonestRun.StaticsOutside (run : HonestRun symbolicSodium) (hidden : Set ℕ) : Prop :=
  ∃ si sr, run.initiatorStatic = privateKey si ∧ run.responderStatic = privateKey sr ∧ si ∉ hidden ∧ sr ∉ hidden

/-- What the eavesdropper starts from: every datagram of the recorded runs, every public key, the static
private keys of the runs, and other private keys, with the names in `revealed`. -/
def recorded (runs : Set (HonestRun symbolicSodium)) (revealed : Set ℕ) : Set Symbol :=
  {x | ∃ run ∈ runs, ∃ b ∈ run.wire, x ∈ b} ∪ {x | ∃ a, x ∈ (symbolicSodium.scalarmultBase a).toList} ∪
    {x | ∃ run ∈ runs, x ∈ run.initiatorStatic.toList ∨ x ∈ run.responderStatic.toList} ∪
    {x | ∃ name ∈ revealed, x ∈ (privateKey name).toList}

/-- What is recorded can be known without the hidden private keys. -/
theorem recorded_subset {runs : Set (HonestRun symbolicSodium)} {revealed : Set ℕ}
    (hstatic : ∀ run ∈ runs, run.StaticsOutside hidden) (hrevealed : ∀ name ∈ revealed, name ∉ hidden) :
    recorded runs revealed ⊆ safeSymbols hidden := by
  rintro x (((⟨run, -, b, hb, hx⟩ | ⟨a, hx⟩) | ⟨run, hrun, hx⟩) | ⟨name, hname, hx⟩)
  · exact run.wire_within (symbolicSodium_secrecy hidden) symbolicSodium_correct hb x hx
  · exact (symbolicSodium_secrecy hidden).pub a x hx
  · obtain ⟨si, sr, hsi, hsr, hsi', hsr'⟩ := hstatic run hrun
    rw [hsi, hsr] at hx
    rcases hx with hx | hx
    · exact within_privateKey.mpr hsi' x hx
    · exact within_privateKey.mpr hsr' x hx
  · exact within_privateKey.mpr (hrevealed name hname) x hx

/-- **Forward secrecy.** A run has ephemeral private keys `ei` and `er`. An eavesdropper that has recorded it
and any other runs, with their data traffic, and knows all public keys, the static private keys of all
the runs and any other private keys but these two, cannot derive an octet of the transport keys of the
run, by any finite sequence of calls of the library. -/
theorem forward_secrecy (run : HonestRun symbolicSodium) (runs : Set (HonestRun symbolicSodium)) (revealed : Set ℕ)
    (ei er : ℕ) (hei : run.initiatorEphemeral = privateKey ei) (her : run.responderEphemeral = privateKey er)
    (hstatic : ∀ r ∈ insert run runs, r.StaticsOutside {ei, er}) (hsecret : ei ∉ revealed ∧ er ∉ revealed) (x : Symbol)
    (hx : (x ∈ run.response.sendKey.toList ∨ x ∈ run.response.recvKey.toList) ∨
      (x ∈ run.finished.sendKey.toList ∨ x ∈ run.finished.recvKey.toList)) :
    ¬ Deduction.Derives (Attack symbolicSodium) (recorded (insert run runs) revealed) x := by
  have hS := symbolicSodium_secrecy {ei, er}
  have houtside : x ∉ safeSymbols {ei, er} := by
    refine run.keys_outside hS ?_ ?_ hx
    · rw [hei, within_privateKey]
      exact fun h => h (.inl rfl)
    · rw [her, within_privateKey]
      exact fun h => h (.inr rfl)
  have hrevealed : ∀ name ∈ revealed, name ∉ ({ei, er} : Set ℕ) := by
    rintro name hname (rfl | rfl)
    · exact hsecret.1 hname
    · exact hsecret.2 hname
  exact hS.closed.not_derives (recorded_subset hstatic hrevealed) houtside

/-! ### A run -/

/-- The run of the handshake between the two hosts of the symbolic library. -/
noncomputable def sampleRun : HonestRun symbolicSodium where
  initiatorStatic := privateKey 1
  responderStatic := privateKey 2
  initiatorEphemeral := privateKey 3
  responderEphemeral := privateKey 4
  initiatorIndex := 7
  responderIndex := 1
  tvSec := 1000
  tvNsec := 0
  initiatorLen := 148
  responderLen := 92
  table := symbolicTable
  initiation := symbolicInitiator.packet
  state := symbolicInitiator.state
  consumed := symbolicConsumed 7
  response := symbolicResponder.response
  finished := ⟨1, symbolicTransport.2, symbolicTransport.1⟩
  creates := symbolicInitiator.created
  consumes := symbolicInitiation_accepted 7
  responds := symbolicResponder.created
  finishes := symbolicResponse_accepted 1

/-- Its sending key has an octet that cannot be derived from the run and every private key but 3 and 4. -/
theorem forward_secrecy_sample : ∃ x ∈ sampleRun.response.sendKey.toList,
    ¬ Deduction.Derives (Attack symbolicSodium) (recorded (insert sampleRun ∅) (Set.compl {3, 4})) x := by
  obtain ⟨x, hx⟩ := exists_mem_toList sampleRun.response.sendKey
  have hsecret : 3 ∉ Set.compl ({3, 4} : Set ℕ) ∧ 4 ∉ Set.compl ({3, 4} : Set ℕ) :=
    ⟨fun h => h (.inl rfl), fun h => h (.inr rfl)⟩
  refine ⟨x, hx, forward_secrecy sampleRun ∅ (Set.compl {3, 4}) 3 4 rfl rfl ?_ hsecret x (.inl (.inl hx))⟩
  rintro r (rfl | hr)
  · exact ⟨1, 2, rfl, rfl, by simp, by simp⟩
  · exact absurd hr (Set.notMem_empty r)

end VpnTunnel
