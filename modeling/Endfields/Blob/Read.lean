import Endfields.Blob.Write

/-!
# What a head reads as

The read of a blob, on a pool whose chains hold what `View.Content` says.

* `readBlobLoop_linked`: the loop copies the payloads of the chain, up to the length of the blob and
  the size of the buffer, and does not fail.
* **The read** (`efReadBlob_content`): the bytes of the blob, as far as the buffer goes, and its
  length; `EF_ERR_NOT_FOUND` on a head without a blob.
-/

namespace Endfields.Model

open Endfields.Lib

namespace Db

variable {g : Geometry} {db : Db} {i need bufCap fuel off : ℕ} {l c : List ℕ} {live : ℕ → Prop}
  {ch : ℕ → List ℕ} {B b : List UInt8}

/-- The payload of a slot, where it stands in the image. -/
lemma payload_eq (db : Db) (hi : i < g.n) :
    ((db.view g).slots i).payload = readBytes db.mem (g.ptr i + 8) 48 := by
  rw [← slotAt_eq db hi]
  rfl

/-- The bytes that are missing come from the next slot. -/
lemma take_append_chunk {p : List UInt8} {m : ℕ} (hB : B.length < m) (hp : p.length = 48) :
    B ++ p.take (min (m - B.length) 48) = (B ++ p).take m := by
  rw [List.take_append, List.take_of_length_le hB.le]
  congr 1
  rcases le_total (m - B.length) 48 with hle | hle
  · rw [min_eq_left hle]
  · rw [min_eq_right hle, List.take_of_length_le hp.le, List.take_of_length_le (by rw [hp]; exact hle)]

/-- **The chain loop** along a chain that ends, once the bytes `B` have been met. -/
lemma readBlobLoop_linked (h : (db.view g).Bound g) (hs : (db.view g).sb.schemaVersion = schemaVersion)
    (hl : Linked g.idOf (fun j => ((db.view g).slots j).nextOffset) off c 0)
    (hgood : ∀ j ∈ c, ((db.view g).slots j).crcValid (db.view g).sb.slotCrc j = true ∧
      ((db.view g).slots j).status = statusOverflow) (hfuel : c.length < fuel) :
    db.readBlobLoop need bufCap fuel off (B.take (min need bufCap)) =
      (.ok, (B ++ c.flatMap fun j => ((db.view g).slots j).payload).take (min need bufCap)) := by
  induction c generalizing off fuel B with
  | nil =>
      obtain ⟨fuel, rfl⟩ : ∃ k, fuel = k + 1 := ⟨fuel - 1, by simp at hfuel; omega⟩
      have h0 : off = 0 := hl
      rw [readBlobLoop, if_pos (.inr (.inr h0)), List.flatMap_nil, List.append_nil]
  | cons j c ih =>
      rw [List.length_cons] at hfuel
      obtain ⟨fuel, rfl⟩ : ∃ k, fuel = k + 1 := ⟨fuel - 1, by omega⟩
      obtain ⟨hid, hrest⟩ := hl
      obtain ⟨hj, hoff⟩ := (g.idOf_eq_some_iff _ _).mp hid
      have hne : off ≠ 0 := by
        rw [hoff]
        exact g.ptr_ne_zero j
      obtain ⟨hv, hov⟩ := hgood j List.mem_cons_self
      have hslot : db.slotAt (g.ptr j) = (db.view g).slots j := slotAt_eq db hj
      rw [readBlobLoop]
      by_cases hstop : need ≤ (B.take (min need bufCap)).length ∨
          bufCap ≤ (B.take (min need bufCap)).length ∨ off = 0
      · have hle : min need bufCap ≤ B.length := by
          rw [List.length_take] at hstop
          rcases hstop with hstop | hstop | hstop
          · omega
          · omega
          · exact absurd hstop hne
        rw [if_pos hstop, List.take_append_of_le_length hle]
      -- bytes are missing, so all of `B` has been copied
      have hlt : B.length < min need bufCap := by
        rw [List.length_take] at hstop
        omega
      have hB : B.take (min need bufCap) = B := List.take_of_length_le hlt.le
      rw [if_neg hstop, (efOffsetToSlotId_eq_ok_iff h _ _).mpr ⟨hj, hoff⟩]
      simp only
      rw [efGetSlot_of_lt h hj, if_pos hv]
      simp only
      rw [hslot, if_neg (not_not.mpr hov), hB]
      have hchunk : db.efBlobOverflowChunkCap = 48 := efPayloadCapacity_eq hs
      have hptr : db.efSlotPayloadPtr (g.ptr j) = g.ptr j + 8 := efSlotPayloadPtr_eq hs _
      have hn : min (min (need - B.length) 48) (bufCap - B.length) =
          min (min need bufCap - B.length) 48 := by omega
      have hbytes : readBytes db.mem (g.ptr j + 8) (min (min need bufCap - B.length) 48) =
          (((db.view g).slots j).payload).take (min (min need bufCap - B.length) 48) := by
        rw [payload_eq db hj, readBytes_take _ _ _ _ (min_le_right _ _)]
      have hfuel' : c.length < fuel := Nat.lt_of_succ_lt_succ hfuel
      rw [hchunk, hptr, hn, hbytes, take_append_chunk hlt (view_length_payload db hj),
        ih hrest (fun a ha => hgood a (List.mem_cons_of_mem j ha)) hfuel', List.flatMap_cons,
        List.append_assoc]

/-- What a read with a buffer of `bufCap` bytes shows of a head. -/
def shown (bufCap : ℕ) : Option (List UInt8) → Err × List UInt8 × ℕ
  | none => (.notFound, [], 0)
  | some b => (.ok, b.take bufCap, b.length)

/-- The header of a head whose payload starts with two words. -/
lemma load_header {x y : ℕ} (hi : i < g.n) (hx : x < 256 ^ 4) (hy : y < 256 ^ 4)
    (h : ((db.view g).slots i).payload.take 8 = leBytes 4 x ++ leBytes 4 y) :
    load db.mem (g.ptr i + 8) 4 = x ∧ load db.mem (g.ptr i + 8 + 4) 4 = y := by
  rw [payload_eq db hi, readBytes_take _ _ _ _ (by norm_num)] at h
  have hfirst := load_of_readBytes_of_lt [] hx h
  have hwords : readBytes db.mem (g.ptr i + 8) 8 = leBytes 4 x ++ leBytes 4 y ++ [] := by
    rw [List.append_nil]
    exact h
  have hsecond := load_of_readBytes_of_lt (leBytes 4 x) hy hwords
  rw [length_leBytes] at hsecond
  exact ⟨hfirst, hsecond⟩

/-- The header of a head: the magic word is there if there is a blob, and its length follows. -/
lemma header_content (hs : (db.view g).sb.schemaVersion = schemaVersion) (hi : i < g.n)
    {x : Option (List UInt8)} (hx : (db.view g).Content i c x) :
    db.efBlobMagicValid (g.ptr i) = x.isSome ∧ db.efBlobReadLen (g.ptr i) = (x.getD []).length := by
  have hptr : db.efSlotPayloadPtr (g.ptr i) = g.ptr i + 8 := efSlotPayloadPtr_eq hs _
  unfold efBlobReadLen efBlobMagicValid
  rw [hptr]
  cases x with
  | none =>
      -- the magic word is zero
      have hzero : load db.mem (g.ptr i + 8) 4 = 0 := by
        have hbytes := hx.2
        rw [payload_eq db hi, readBytes_take _ _ _ _ (by norm_num)] at hbytes
        have hle : readBytes db.mem (g.ptr i + 8) 4 = [] ++ leBytes 4 0 ++ [] := by
          rw [hbytes]
          decide
        exact load_of_readBytes_of_lt [] (by norm_num) hle
      rw [hzero]
      exact ⟨rfl, rfl⟩
  | some b =>
      obtain ⟨hlen, hhead, -, -⟩ := hx
      obtain ⟨hm, hl⟩ := load_header hi (by decide) (by norm_num; omega) hhead
      rw [hm, hl]
      exact ⟨rfl, rfl⟩

/-- **The read of a head** whose slots pass their checks. -/
lemma efReadBlob_content (h : (db.view g).Chains g l live ch) (hi : live i)
    (hv : ∀ j, (live j ∨ ∃ i, j ∈ ch i) →
      ((db.view g).slots j).crcValid (db.view g).sb.slotCrc j = true)
    {x : Option (List UInt8)} (hx : (db.view g).Content i (ch i) x) (bufCap : ℕ) :
    db.efReadBlob i bufCap = shown bufCap x := by
  obtain ⟨hlt, hused⟩ := h.head i hi
  have hslot : (db.setError .ok).slotAt (g.ptr i) = (db.view g).slots i := slotAt_eq db hlt
  have hptr : (db.setError .ok).efSlotPayloadPtr (g.ptr i) = g.ptr i + 8 :=
    efSlotPayloadPtr_eq (g := g) h.schema _
  have hcap : (db.setError .ok).efPayloadCapacity = 48 := efPayloadCapacity_eq (g := g) h.schema
  have hheader := header_content h.schema hlt hx
  have hmagic : (db.setError .ok).efBlobMagicValid (g.ptr i) = x.isSome := hheader.1
  have hneed : (db.setError .ok).efBlobReadLen (g.ptr i) = (x.getD []).length := hheader.2
  unfold efReadBlob
  rw [efGetSlot_of_lt h.toBound hlt, if_pos (hv i (.inl hi))]
  simp only
  rw [hslot, if_neg (not_not.mpr hused), hmagic, hneed, hptr]
  unfold efBlobInlineCapacity
  rw [hcap]
  cases x with
  | none => rfl
  | some b =>
      obtain ⟨hlen, -, hchunks, hbytes⟩ := hx
      simp only [Option.isSome_some, Option.getD_some, reduceCtorEq, if_false]
      by_cases hbuf : bufCap = 0
      · rw [if_pos hbuf, hbuf]
        rfl
      rw [if_neg hbuf]
      have hin : readBytes (db.setError .ok).mem (g.ptr i + 8 + 8)
          (min (min b.length (48 - 8)) bufCap) =
          (((db.view g).slots i).payload.drop 8).take (min b.length bufCap) := by
        have hadd := readBytes_add db.mem (g.ptr i + 8) 8 40
        rw [payload_eq db hlt, hadd, List.drop_left' (length_readBytes _ _ _)]
        rcases le_total (min b.length bufCap) 40 with hle | hle
        · rw [readBytes_take _ _ _ _ hle]
          congr 1
          omega
        · rw [List.take_of_length_le (by rw [length_readBytes]; exact hle)]
          congr 1
          omega
      have hfuel : (ch i).length < b.length + 1 := by
        rw [hchunks]
        unfold overflowNeed
        omega
      have hgood : ∀ j ∈ ch i, ((db.view g).slots j).crcValid (db.view g).sb.slotCrc j = true ∧
          ((db.view g).slots j).status = statusOverflow :=
        fun j hj => ⟨hv j (.inr ⟨i, hj⟩), (h.overflow i j hj).2⟩
      have hloop : (db.setError .ok).readBlobLoop b.length bufCap (b.length + 1)
          ((db.view g).slots i).nextOffset
          ((((db.view g).slots i).payload.drop 8).take (min b.length bufCap)) =
            (.ok, ((db.view g).blobBytes i (ch i)).take (min b.length bufCap)) :=
        readBlobLoop_linked (g := g) h.toBound h.schema (h.chain i hi) hgood hfuel
      rw [hin, hloop]
      refine Prod.ext rfl (Prod.ext ?_ rfl)
      show ((db.view g).blobBytes i (ch i)).take (min b.length bufCap) = b.take bufCap
      rw [min_comm, ← List.take_take, hbytes]

end Db

end Endfields.Model
