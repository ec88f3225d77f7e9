import Mathlib.Data.Set.Basic
import Mathlib.Data.List.Nodup

/-!
# Numbers that are used once

A system uses numbers under keys (nonces, sequence numbers, tickets), and no number may be used twice
under one key. The numbers are used by holders, which come and go: a holder has a key and a set of
spent numbers, uses only numbers it has not spent, and spends what it uses. Holders may move from
place to place, as long as there are never two with one key.

`Inv` is the invariant of such a system, relating the keys issued so far, the uses so far, and the
holders there are now. `Inv.advance` keeps it when holders spend more, and perhaps use a number;
`Inv.issue` when a holder with a new key arrives and others move or vanish.
-/

namespace OneTime

/-- A holder of a key. -/
structure Holder (κ ν : Type) where
  /-- Its key. -/
  key : κ
  /-- The numbers it will not use again. -/
  spent : Set ν

variable {κ ν η : Type}

/-- The invariant: the keys issued, the uses so far (a key and a number), and which holder is at
which place. -/
structure Inv (keys : List κ) (uses : List (κ × ν)) (holder : η → Holder κ ν → Prop) : Prop where
  /-- Every holder's key was issued. -/
  issued : ∀ {a h}, holder a h → h.key ∈ keys
  /-- Holders at different places have different keys. -/
  distinct : ∀ {a h b h'}, holder a h → holder b h' → h.key = h'.key → a = b
  /-- A number used under a holder's key is spent. -/
  spent : ∀ {a h n}, holder a h → (h.key, n) ∈ uses → n ∈ h.spent
  /-- Numbers were used under keys that were issued. -/
  owned : ∀ {k n}, (k, n) ∈ uses → k ∈ keys
  /-- No number was used twice under one key. -/
  once : uses.Nodup

variable {keys : List κ} {uses new : List (κ × ν)} {holder holder' : η → Holder κ ν → Prop}

/-- Nothing used yet: the keys of the holders were issued, each to one holder. -/
theorem Inv.start (hissued : ∀ {a h}, holder a h → h.key ∈ keys)
    (hdistinct : ∀ {a h b h'}, holder a h → holder b h' → h.key = h'.key → a = b) :
    Inv keys ([] : List (κ × ν)) holder where
  issued := hissued
  distinct := hdistinct
  spent _ hu := absurd hu List.not_mem_nil
  owned hu := absurd hu List.not_mem_nil
  once := List.nodup_nil

/-- Holders stay where they are with their keys and spend more; what is used is used by a holder that
had not spent it, and is spent afterwards. -/
theorem Inv.advance (hinv : Inv keys uses holder)
    (hold : ∀ {a h'}, holder' a h' → ∃ h, holder a h ∧ h.key = h'.key ∧ h.spent ⊆ h'.spent ∧
      ∀ n, (h'.key, n) ∈ new → n ∈ h'.spent)
    (huse : ∀ {k n}, (k, n) ∈ new → ∃ a h, holder a h ∧ h.key = k ∧ n ∉ h.spent) (honce : new.Nodup) :
    Inv keys (uses ++ new) holder' where
  issued ha := by
    obtain ⟨h, ha, hkey, -⟩ := hold ha
    exact hkey ▸ hinv.issued ha
  distinct ha hb hkey := by
    obtain ⟨h, ha, hkeya, -⟩ := hold ha
    obtain ⟨h', hb, hkeyb, -⟩ := hold hb
    exact hinv.distinct ha hb (hkeya.trans (hkey.trans hkeyb.symm))
  spent ha hu := by
    obtain ⟨h, ha, hkey, hsub, hnew⟩ := hold ha
    rcases List.mem_append.mp hu with hu | hu
    · exact hsub (hinv.spent ha (hkey ▸ hu))
    · exact hnew _ hu
  owned hu := by
    rcases List.mem_append.mp hu with hu | hu
    · exact hinv.owned hu
    · obtain ⟨a, h, ha, rfl, -⟩ := huse hu
      exact hinv.issued ha
  once := by
    refine List.nodup_append'.mpr ⟨hinv.once, honce, ?_⟩
    rintro ⟨k, n⟩ hpast hnow
    obtain ⟨a, h, ha, rfl, hfresh⟩ := huse hnow
    exact hfresh (hinv.spent ha hpast)

/-- A holder with a new key arrives at `a₀`. The other holders were there, no two at one place; `origin a b`
says that what is at `a` was at `b`. -/
theorem Inv.issue (hinv : Inv keys uses holder) {k : κ} (hk : k ∉ keys) (a₀ : η) (origin : η → η → Prop)
    (hinj : ∀ {a a' b}, origin a b → origin a' b → a = a')
    (hold : ∀ {a h}, holder' a h → (a = a₀ ∧ h.key = k) ∨ ∃ b, origin a b ∧ holder b h) :
    Inv (keys ++ [k]) uses holder' where
  issued ha := by
    rcases hold ha with ⟨-, rfl⟩ | ⟨b, -, hb⟩
    · exact List.mem_append_right _ (List.mem_singleton_self _)
    · exact List.mem_append_left _ (hinv.issued hb)
  distinct ha hb hkey := by
    rcases hold ha with ⟨rfl, hka⟩ | ⟨x, hax, hx⟩ <;> rcases hold hb with ⟨rfl, hkb⟩ | ⟨y, hby, hy⟩
    · rfl
    · exact absurd (hinv.issued hy) (by rw [← hkey, hka]; exact hk)
    · exact absurd (hinv.issued hx) (by rw [hkey, hkb]; exact hk)
    · exact hinj hax (hinv.distinct hx hy hkey ▸ hby)
  spent ha hu := by
    rcases hold ha with ⟨-, hka⟩ | ⟨b, -, hb⟩
    · exact absurd (hinv.owned hu) (by rw [hka]; exact hk)
    · exact hinv.spent hb hu
  owned hu := List.mem_append_left _ (hinv.owned hu)
  once := hinv.once

end OneTime
