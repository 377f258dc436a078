import Libmpp.Trie.Entries

/-!
# Room for entries

The buffer of the entries is enlarged once for an entry, to twice its size, whatever the entry
takes. So there is room for it if and only if it ends within twice the buffer
(`prepareBuf_fits`); entries of up to 4096 bytes always do, as the buffer is never smaller
than that.
-/

namespace Libmpp.Trie

open Option

/-- When room has been prepared for an entry, the entry ends within the buffer. -/
def PreparedFits (p : MppTrieImpl) (e : Entry) : Prop :=
  ∀ p', strLen e.1 < trieMax → triePrepareBuf p e.size = some p' →
    p'.infoBufPos + e.size ≤ p'.infoBufSize

/-- The entries end within the buffer, and it has not become smaller. -/
structure Roomy (p : MppTrieImpl) : Prop where
  pos_le : p.infoBufPos ≤ p.infoBufSize
  le_size : 4096 ≤ p.infoBufSize

variable {p p' : MppTrieImpl} {e : Entry}

theorem Roomy.prepared (h : Roomy p) {n : ℕ} (hprep : triePrepareBuf p n = some p') :
    Roomy p' := by
  obtain ⟨hpos, hsize⟩ := h
  rw [triePrepareBuf] at hprep
  split_ifs at hprep
  · rw [← some.inj hprep]
    refine ⟨hpos.trans ?_, hsize.trans ?_⟩
    · exact Nat.le_mul_of_pos_right _ Nat.two_pos
    · exact Nat.le_mul_of_pos_right _ Nat.two_pos
  · rw [← some.inj hprep]
    exact ⟨hpos, hsize⟩

theorem Roomy.add (h : Roomy p) (hp : Plain p.nodes) {ok : Bool}
    (hadd : mppTrieAddInfo p e.1 e.2 = some (p', ok)) : Roomy p' := by
  rw [mppTrieAddInfo] at hadd
  split_ifs at hadd with hlong
  · obtain ⟨rfl, -⟩ := Prod.mk.inj (some.inj hadd)
    exact h
  · split at hadd
    · obtain ⟨rfl, -⟩ := Prod.mk.inj (some.inj hadd)
      exact h
    · rename_i p₁ hprep
      have h₁ := h.prepared hprep
      have hp₁ : Plain p₁.nodes := by
        rw [(prepareBuf_eq hprep).2]
        exact hp
      obtain ⟨⟨p₂, j⟩, hpave, hadd⟩ := bind_eq_some_iff.1 hadd
      obtain ⟨hpaved, -, -⟩ := pave_spec hp₁ hpave
      have h₂ : Roomy p₂ := by
        rw [hpaved.eq]
        exact ⟨h₁.pos_le, h₁.le_size⟩
      dsimp only at hadd
      split_ifs at hadd with hid hsize
      · obtain ⟨rfl, -⟩ := Prod.mk.inj (some.inj hadd)
        exact h₂
      · obtain ⟨rfl, -⟩ := Prod.mk.inj (some.inj hadd)
        refine ⟨?_, h₂.le_size⟩
        rw [MppTrieImpl.infoBufPos, List.length_append, length_infoBytes _ (not_le.1 hlong)]
        exact not_lt.1 hsize

theorem Built.roomy {name : CName} {l : List Entry} (h : Built name p l) : Roomy p := by
  induction h with
  | init => exact ⟨Nat.zero_le _, le_rfl⟩
  | add hb hadd ih => exact ih.add hb.filled.plain hadd

/-- There is room for an entry if and only if it ends within twice the buffer. -/
theorem preparedFits_iff (h : Roomy p) :
    PreparedFits p e ↔ (strLen e.1 < trieMax → p.infoCount < trieMax →
      p.infoBufPos + e.size ≤ 2 * p.infoBufSize) := by
  have hsize := h.le_size
  rw [PreparedFits]
  constructor
  · intro hfits hlen hcnt
    by_cases hle : p.infoBufPos + e.size ≤ p.infoBufSize
    · omega
    · have hprep : triePrepareBuf p e.size = some { p with infoBufSize := p.infoBufSize * 2 } := by
        rw [triePrepareBuf, if_neg (not_le.2 hcnt), if_pos (not_le.1 hle)]
      rw [Nat.mul_comm]
      exact hfits _ hlen hprep
  · intro hroom p' hlen hprep
    have hcnt := (prepareBuf_eq hprep).1
    rw [triePrepareBuf, if_neg (not_le.2 hcnt)] at hprep
    split_ifs at hprep with hle
    · rw [← some.inj hprep, Nat.mul_comm]
      exact hroom hlen hcnt
    · rw [← some.inj hprep]
      exact not_lt.1 hle

/-- In every state that is reached, an entry has room if and only if it ends within twice the
    buffer, and so it has when it takes at most 4096 bytes. -/
theorem prepareBuf_fits {name : CName} {l : List Entry} (h : Built name p l) (e : Entry) :
    (PreparedFits p e ↔ (strLen e.1 < trieMax → p.infoCount < trieMax →
      p.infoBufPos + e.size ≤ 2 * p.infoBufSize)) ∧
    (e.size ≤ 4096 → PreparedFits p e) := by
  refine ⟨preparedFits_iff h.roomy, fun hle => (preparedFits_iff h.roomy).2 fun _ _ => ?_⟩
  have hpos := h.roomy.pos_le
  have hsize := h.roomy.le_size
  omega

/-- Behind an entry another one has room, when it is short. -/
theorem prepareBuf_fits_second : ∃ p, Built nameName p [(nameName, [1])] ∧
    PreparedFits p (nodeName, [1, 2, 3]) := by
  have hok : ((mppTrieAddInfo (mppTrieInit nameName) nameName [1]).map Prod.snd) = some true := by
    decide
  obtain ⟨⟨p, ok⟩, hadd, rfl⟩ := map_eq_some_iff.1 hok
  have hbuilt := Built.add (e := (nameName, [1])) .init hadd
  exact ⟨p, hbuilt, (prepareBuf_fits hbuilt _).2 (by decide)⟩

/-- A first entry of more than 8192 bytes has no room. -/
theorem prepareBuf_not_fits :
    ¬∀ name p l e, Built name p l → PreparedFits p e := by
  intro hall
  have h := hall nameName _ _ (nodeName, List.replicate 8192 0) .init
  rw [preparedFits_iff Built.init.roomy] at h
  have hsize : Entry.size (nodeName, List.replicate 8192 0) = 8208 := by
    rw [Entry.size, infoSize, ctxLen, List.length_replicate]
    decide
  rw [hsize] at h
  exact absurd (h (by decide) (by decide)) (by decide)

end Libmpp.Trie
