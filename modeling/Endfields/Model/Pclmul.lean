import Endfields.Lib.Clmul
import Endfields.Model.Crc

/-!
# CRC-32 by carry-less multiplication

The fast path of `ef_crc_pclmul.c` on x86-64. A 128-bit register is the number that its bytes make,
the first byte lowest, and the vector instructions are taken as they are documented. The body works
on chunks of up to 4096 bytes; what is left below 64 bytes goes to slicing-by-4.
-/

namespace Endfields.Model

open Endfields.Lib

/-! ## Vector instructions -/

/-- `_mm_loadu_si128`, at an offset into the bytes. -/
def mmLoad (bs : List UInt8) (off : ℕ) : ℕ := leNat ((bs.drop off).take 16)

/-- A register from its two 64-bit words. -/
def mmPair (lo hi : ℕ) : ℕ := lo ^^^ hi <<< 64

/-- A 64-bit word of a register. -/
def qword (x i : ℕ) : ℕ := (x >>> (64 * i)) % 2 ^ 64

/-- `_mm_clmulepi64_si128`: bits 0 and 4 of the constant choose the words. -/
def mmClmulepi64 (a b imm : ℕ) : ℕ := clmul 64 (qword a (imm % 2)) (qword b (imm / 16 % 2))

/-- `_mm_shuffle_epi8`: bit 7 of a control byte clears, its low four bits choose. -/
def mmShuffleEpi8 (x ctl : ℕ) : ℕ :=
  joinBytes (fun i => if (byteOf ctl i).testBit 7 then 0 else byteOf x (byteOf ctl i % 16)) 16

/-- `_mm_blendv_epi8`: bit 7 of a mask byte chooses the second register. -/
def mmBlendvEpi8 (a b mask : ℕ) : ℕ :=
  joinBytes (fun i => if (byteOf mask i).testBit 7 then byteOf b i else byteOf a i) 16

/-- `_mm_srli_si128`, by `n` bytes. -/
def mmSrliSi128 (x n : ℕ) : ℕ := x >>> (8 * n)

/-- `_mm_slli_si128`, by `n` bytes. -/
def mmSlliSi128 (x n : ℕ) : ℕ := (x <<< (8 * n)) % 2 ^ 128

/-- `_mm_extract_epi32`. -/
def mmExtractEpi32 (x i : ℕ) : ℕ := (x >>> (32 * i)) % 2 ^ 32

/-! ## Constants -/

/-- Source: `ef_crc_pclmul.c`, `EF_CRC_PCLMUL_MIN` -/
def crcPclmulMin : ℕ := 64

/-- Source: `ef_crc_pclmul.c`, `ef_crc32_pclmul_ctx` -/
structure Crc32PclmulCtx where
  rk1 : ℕ
  rk2 : ℕ
  rk5 : ℕ
  rk6 : ℕ
  rk7 : ℕ
  rk8 : ℕ

/-- Source: `ef_crc_pclmul.c`, `ef_crc32_ether_pclmul` -/
def efCrc32EtherPclmul : Crc32PclmulCtx where
  rk1 := 0xccaa009e
  rk2 := 0x1751997d0
  rk5 := 0xccaa009e
  rk6 := 0x163cd6124
  rk7 := 0x1f7011640
  rk8 := 0x1db710641

/-- Source: `ef_crc_pclmul.c`, `ef_crc_xmm_shift_tab` -/
def efCrcXmmShiftTab : List UInt8 :=
  List.replicate 16 0xff ++
    [0x00, 0x01, 0x02, 0x03, 0x04, 0x05, 0x06, 0x07, 0x08, 0x09, 0x0a, 0x0b, 0x0c, 0x0d, 0x0e, 0x0f] ++
    List.replicate 16 0xff

/-- Source: `ef_crc_pclmul.c`, `ef_crc32_pclmul_body`, `shf_table` -/
def shfTable : List UInt8 :=
  [0x00, 0x81, 0x82, 0x83, 0x84, 0x85, 0x86, 0x87, 0x88, 0x89, 0x8a, 0x8b, 0x8c, 0x8d, 0x8e, 0x8f,
    0x00, 0x01, 0x02, 0x03, 0x04, 0x05, 0x06, 0x07, 0x08, 0x09, 0x0a, 0x0b, 0x0c, 0x0d, 0x0e, 0x0f]

/-- Source: `ef_crc_pclmul.c`, `ef_crc32_reduce_64_to_32`, `mask1` -/
def mask1 : ℕ := 0x0000000000000000ffffffffffffffff

/-- Source: `ef_crc_pclmul.c`, `ef_crc32_reduce_64_to_32`, `mask2` -/
def mask2 : ℕ := 0xffffffffffffffffffffffff00000000

/-- Source: `ef_crc_pclmul.c`, `ef_crc32_pclmul_body`, `mask3` -/
def mask3 : ℕ := 0x80808080808080808080808080808080

/-! ## The rounds -/

/-- Source: `ef_crc_pclmul.c`, `ef_crc_xmm_shift_left` -/
def efCrcXmmShiftLeft (reg num : ℕ) : ℕ := mmShuffleEpi8 reg (mmLoad efCrcXmmShiftTab (16 - num))

/-- Source: `ef_crc_pclmul.c`, `ef_crc32_folding_round` -/
def efCrc32FoldingRound (dataBlock precomp fold : ℕ) : ℕ :=
  let tmp0 := mmClmulepi64 fold precomp 0x01
  let tmp1 := mmClmulepi64 fold precomp 0x10
  tmp1 ^^^ (dataBlock ^^^ tmp0)

/-- Source: `ef_crc_pclmul.c`, `ef_crc32_reduce_128_to_64` -/
def efCrc32Reduce128To64 (data128 precomp : ℕ) : ℕ :=
  let tmp0 := mmClmulepi64 data128 precomp 0x00 ^^^ mmSrliSi128 data128 8
  let tmp2 := mmSlliSi128 tmp0 4
  let tmp1 := mmClmulepi64 tmp2 precomp 0x10
  tmp1 ^^^ tmp0

/-- Source: `ef_crc_pclmul.c`, `ef_crc32_reduce_64_to_32` -/
def efCrc32Reduce64To32 (data64 precomp : ℕ) : ℕ :=
  let tmp0 := data64 &&& mask2
  let tmp1 := (mmClmulepi64 tmp0 precomp 0x00 ^^^ tmp0) &&& mask1
  let tmp2 := mmClmulepi64 tmp1 precomp 0x10 ^^^ tmp1 ^^^ tmp0
  mmExtractEpi32 tmp2 2

/-! ## The body -/

/-- The folding loop: the position it stops at, and the register.
Source: `ef_crc_pclmul.c`, `ef_crc32_pclmul_body` -/
def foldLoop (data : List UInt8) (k : ℕ) : ℕ → ℕ → ℕ → ℕ × ℕ
  | 0, n, fold => (n, fold)
  | fuel + 1, n, fold =>
      if n + 16 ≤ data.length then
        foldLoop data k fuel (n + 16) (efCrc32FoldingRound (mmLoad data n) k fold)
      else (n, fold)

/-- The last bytes after whole blocks, taken with the sixteen bytes that end the data.
Source: `ef_crc_pclmul.c`, `ef_crc32_pclmul_body`, `partial_bytes` -/
def partialBytes (data : List UInt8) (k n fold : ℕ) : ℕ :=
  if n < data.length then
    let last16 := mmLoad data (data.length - 16)
    let temp := mmLoad shfTable (data.length % 16)
    let a := mmShuffleEpi8 fold temp
    let temp := temp ^^^ mask3
    let b := mmShuffleEpi8 fold temp
    let b := mmBlendvEpi8 b last16 temp
    let temp := mmClmulepi64 a k 0x01
    let fold := mmClmulepi64 a k 0x10
    fold ^^^ temp ^^^ b
  else fold

/-- Source: `ef_crc_pclmul.c`, `ef_crc32_pclmul_body`, `barret_reduction` -/
def barretReduction (params : Crc32PclmulCtx) (fold : ℕ) : ℕ :=
  efCrc32Reduce64To32 fold (mmPair params.rk7 params.rk8)

/-- Source: `ef_crc_pclmul.c`, `ef_crc32_pclmul_body`, `reduction_128_64` -/
def reduction12864 (params : Crc32PclmulCtx) (fold : ℕ) : ℕ :=
  barretReduction params (efCrc32Reduce128To64 fold (mmPair params.rk5 params.rk6))

/-- Source: `ef_crc_pclmul.c`, `ef_crc32_pclmul_body` -/
def efCrc32PclmulBody (data : List UInt8) (crc : ℕ) (params : Crc32PclmulCtx) : ℕ :=
  let len := data.length
  let k := mmPair params.rk1 params.rk2
  if len = 0 then crc
  else if len < 32 then
    if len = 16 then reduction12864 params (mmLoad data 0 ^^^ crc)
    else if len < 16 then
      let fold := mmLoad (data ++ List.replicate (16 - len) 0) 0 ^^^ crc
      if len < 4 then barretReduction params (efCrcXmmShiftLeft fold (8 - len))
      else reduction12864 params (efCrcXmmShiftLeft fold (16 - len))
    else reduction12864 params (partialBytes data k 16 (mmLoad data 0 ^^^ crc))
  else
    let (n, fold) := foldLoop data k (len / 16) 16 (mmLoad data 0 ^^^ crc)
    reduction12864 params (partialBytes data k n fold)

/-! ## The update -/

/-- The loop over the chunks: the offset it stops at, and the register.
Source: `ef_crc_pclmul.c`, `ef_crc32_update_pclmul` -/
def pclmulLoop (data : List UInt8) : ℕ → ℕ → ℕ → ℕ × ℕ
  | 0, offset, out => (offset, out)
  | fuel + 1, offset, out =>
      if crcPclmulMin ≤ data.length - offset then
        let chunk := if 4096 < data.length - offset then 4096 else data.length - offset
        pclmulLoop data fuel (offset + chunk)
          (efCrc32PclmulBody ((data.drop offset).take chunk) out efCrc32EtherPclmul)
      else (offset, out)

/-- Source: `ef_crc_pclmul.c`, `ef_crc32_update_pclmul` -/
def efCrc32UpdatePclmul (available : Bool) (crc : ℕ) (data : List UInt8) : ℕ :=
  if available = false ∨ data.length = 0 then efCrc32UpdateSlice4 crc data
  else
    let (offset, out) := pclmulLoop data data.length 0 crc
    if offset < data.length then efCrc32UpdateSlice4 out (data.drop offset) else out

end Endfields.Model
