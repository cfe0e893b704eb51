import GoKafka.Errors
import GoKafka.Lib.BigEndian
import GoKafka.Wire.Buffer

/-!
# Snappy and LZ4 blocks

`internal/compress/snappy.go` and `lz4.go`. An access outside of a slice is a panic
of the model, and so is a `make` of more than a slice can have. A decoder is a loop around the step
that decodes an element; it carries the proof that a step uses up input, which is why the loop ends.

`decodes_total_iff` says for which limits both decoders are total. What
`SnappyEncode` writes, literals only, is read back (`snappyDecode_snappyEncode`).
-/

namespace GoKafka.Compress

open BigEndian List

/-! ## The program -/

def errSnappyCorrupt : Error := .codec "snappy: corrupt input"

def errLZ4 : Error := .codec "lz4: corrupt or unsupported block"

/-- `bs[i]`. -/
def index (bs : Bytes) (i : Int) : Except Error UInt8 :=
  match if 0 ≤ i then bs[i.toNat]? else none with
  | some b => .ok b
  | none => .error (.panic "runtime error: index out of range")

/-- `bs[lo:hi]`. -/
def slice (bs : Bytes) (lo hi : Nat) : Except Error Bytes :=
  if lo ≤ hi ∧ hi ≤ bs.length then .ok ((bs.take hi).drop lo)
  else .error (.panic "runtime error: slice bounds out of range")

/-- `make([]byte, 0, n)`. -/
def makeBytes (n : Nat) : Except Error Bytes :=
  if n ≤ maxAlloc then .ok [] else .error (.panic "runtime error: makeslice: cap out of range")

/-- The number in the first `n` bytes, the lowest first. -/
def littleEndian (src : Bytes) : Nat → Except Error Nat
  | 0 => .ok 0
  | n + 1 => do return (← littleEndian src n) ||| (← index src n).toNat <<< (8 * n)

/-- `snappyCopy`, which is also the loop at the end of `lz4DecompressBlock`. -/
def snappyCopy (offset : Nat) : Nat → Bytes → Except Error Bytes
  | 0, out => .ok out
  | length + 1, out => do snappyCopy offset length (out ++ [← index out (out.length - offset)])

/-- The loop of `decodeSnappyVarint` from byte `i` on. -/
def decodeSnappyVarintLoop : Nat → Nat → Bytes → Nat × Nat
  | _, _, [] => (0, 0)
  | i, x, b :: src =>
    if i ≥ 10 then (0, 0)
    else
      let x := x ||| (b &&& 0x7f).toNat <<< (7 * i) % 2 ^ 64
      if b < 0x80 then (x, i + 1) else decodeSnappyVarintLoop (i + 1) x src

def decodeSnappyVarint (src : Bytes) : Nat × Nat := decodeSnappyVarintLoop 0 0 src

/-- `snappyLiteralLen`: a tag from `0xf0` to `0xf3` has the length in one to four bytes. -/
def snappyLiteralLen (tag : UInt8) (src : Bytes) : Except Error (Nat × Bytes) :=
  if tag < 0xf0 then .ok ((tag >>> 2).toNat + 1, src)
  else if tag ≤ 0xf3 then
    if src.length < (tag - 0xf0).toNat + 1 then .error errSnappyCorrupt
    else do
      let length ← littleEndian src ((tag - 0xf0).toNat + 1)
      return (length + 1, ← slice src ((tag - 0xf0).toNat + 1) src.length)
  else .error errSnappyCorrupt

/-- A copy in the loop of `SnappyDecode`: the bytes of its offset, the bits of the offset in the tag
and the shortest length. -/
def snappyBackReference (width high shortest : Nat) (tag : UInt8) (src out : Bytes) :
    Except Error (Bytes × Bytes) :=
  if src.length < width then .error errSnappyCorrupt
  else do
    let offset := (← littleEndian src width) ||| high
    let src ← slice src width src.length
    if offset = 0 ∨ offset > out.length then .error errSnappyCorrupt
    else return (src, ← snappyCopy offset ((tag >>> 2 &&& 7).toNat + shortest) out)

/-- The body of the loop of `SnappyDecode`: the input left and the output. -/
def snappyStep (src out : Bytes) : Except Error (Bytes × Bytes) :=
  if src.length = 0 then .error errSnappyCorrupt
  else do
    let tag ← index src 0
    let src ← slice src 1 src.length
    if tag &&& 3 = 0 then
      let (litLen, src) ← snappyLiteralLen tag src
      if src.length < litLen then .error errSnappyCorrupt
      else return (← slice src litLen src.length, out ++ (← slice src 0 litLen))
    else if tag &&& 3 = 1 then
      snappyBackReference 2 ((tag &&& 0xe0).toNat <<< 3) 4 tag src out
    else if tag &&& 3 = 2 then snappyBackReference 2 0 9 tag src out
    else snappyBackReference 4 0 17 tag src out

/-- The loop that extends a length of fifteen. -/
def extendLength (n : Nat) : Bytes → Except Error (Nat × Bytes)
  | [] => .error errLZ4
  | b :: src => if b ≠ 255 then .ok (n + b.toNat, src) else extendLength (n + 255) src

/-- A length in half a token and the bytes after it. -/
def lz4Length (nibble : UInt8) (src : Bytes) : Except Error (Nat × Bytes) :=
  if nibble = 15 then extendLength 15 src else .ok (nibble.toNat, src)

/-- The body of the loop of `lz4DecompressBlock`: the input left and the output. -/
def lz4Step (uncompLen : Nat) (src out : Bytes) : Except Error (Bytes × Bytes) :=
  if src.length = 0 then .error errLZ4
  else do
    let token ← index src 0
    let (litLen, src) ← lz4Length (token >>> 4) (← slice src 1 src.length)
    if litLen > src.length then .error errLZ4
    else
      let out := out ++ (← slice src 0 litLen)
      let src ← slice src litLen src.length
      if out.length ≥ uncompLen then return (src, out)
      else if src.length < 2 then .error errLZ4
      else
        let offset ← littleEndian src 2
        let src ← slice src 2 src.length
        if offset = 0 ∨ offset > out.length then .error errLZ4
        else
          let (matchLen, src) ← lz4Length (token &&& 15) src
          return (src, ← snappyCopy offset (matchLen + 4) out)

/-! ## The steps -/

/-- A computation ends with a value of a kind or with an error that the code returns. -/
def Ends (m : Except Error α) (Q : α → Prop) : Prop :=
  match m with
  | .ok v => Q v
  | .error e => e.Returned

/-- A panic in neither part is none in the sequence. -/
theorem Ends.bind {α β : Type} {P : α → Prop} {Q : β → Prop} {m : Except Error α}
    {f : α → Except Error β} (h : Ends m P) (hf : ∀ v, P v → Ends (f v) Q) : Ends (m >>= f) Q := by
  cases m with
  | error e => exact h
  | ok v => exact hf v h

/-- A check before the rest. -/
theorem Ends.unless [Decidable p] {m : Except Error α} (he : e.Returned) (h : ¬ p → Ends m Q) :
    Ends (if p then .error e else m) Q := by
  split_ifs with hp
  · exact he
  · exact h hp

/-- An index within the bytes does not panic. -/
theorem ends_index {bs : Bytes} {i : Int} (h : 0 ≤ i) (hi : i < bs.length) :
    Ends (index bs i) fun _ => True := by
  have hlt : i.toNat < bs.length := by omega
  rw [index, if_pos h, getElem?_eq_getElem hlt]
  trivial

/-- Nor does a slice of them. -/
theorem ends_slice {bs : Bytes} (h : lo ≤ hi) (hhi : hi ≤ bs.length) :
    Ends (slice bs lo hi) fun bs' => bs'.length = hi - lo := by
  rw [slice, if_pos ⟨h, hhi⟩]
  show ((bs.take hi).drop lo).length = hi - lo
  rw [length_drop, length_take, min_eq_left hhi]

/-- Nor does a number that they hold. -/
theorem ends_littleEndian {src : Bytes} (h : n ≤ src.length) :
    Ends (littleEndian src n) fun _ => True := by
  induction n with
  | zero => trivial
  | succ n ih =>
    exact (ih (by omega)).bind fun _ _ => (ends_index (by omega) (by omega)).bind fun _ _ => trivial

/-- A copy from within the output does not panic. -/
theorem ends_snappyCopy (n : Nat) (h : ¬ (offset = 0 ∨ offset > out.length)) :
    Ends (snappyCopy offset n out) fun _ => True := by
  induction n generalizing out with
  | zero => trivial
  | succ n ih =>
    refine (ends_index (by omega) (by omega)).bind fun b _ => ih ?_
    rw [length_append]
    omega

/-- The length of a literal is read from the input. -/
theorem ends_snappyLiteralLen :
    Ends (snappyLiteralLen tag src) fun p => p.2.length ≤ src.length := by
  unfold snappyLiteralLen
  split_ifs with _ _ hshort
  · exact Nat.le_refl _
  · exact nofun
  · refine (ends_littleEndian (by omega)).bind fun _ _ => ?_
    exact (ends_slice (by omega) le_rfl).bind fun _ h => h.trans_le (Nat.sub_le _ _)
  · exact nofun

/-- A back reference leaves at most the input behind its tag. -/
theorem ends_snappyBackReference (h : src.length < n) :
    Ends (snappyBackReference width high shortest tag src out) fun p => p.1.length < n := by
  refine .unless nofun fun hshort => (ends_littleEndian (by omega)).bind fun _ _ => ?_
  refine (ends_slice (by omega) le_rfl).bind fun _ hsrc => .unless nofun fun hoffset => ?_
  refine (ends_snappyCopy _ hoffset).bind fun _ _ => ?_
  exact hsrc.trans_lt ((Nat.sub_le _ _).trans_lt h)

/-- An element takes at least its tag from the input. -/
theorem ends_snappyStep : Ends (snappyStep src out) fun p => p.1.length < src.length := by
  refine .unless nofun fun hne => (ends_index le_rfl (by omega)).bind fun tag _ => ?_
  refine (ends_slice (by omega) le_rfl).bind fun src' hsrc' => ?_
  have hlt : src'.length < src.length := by omega
  split_ifs
  · refine ends_snappyLiteralLen.bind fun p hp => .unless nofun fun hshort => ?_
    refine (ends_slice (by omega) le_rfl).bind fun left hleft => ?_
    refine (ends_slice (Nat.zero_le _) (by omega)).bind fun lit _ => ?_
    show left.length < src.length
    omega
  · exact ends_snappyBackReference hlt
  · exact ends_snappyBackReference hlt
  · exact ends_snappyBackReference hlt

/-- The bytes that extend a length are read from the input. -/
theorem ends_extendLength (h : src.length ≤ m) :
    Ends (extendLength n src) fun p => p.2.length ≤ m := by
  induction src generalizing n with
  | nil => exact nofun
  | cons b src ih =>
    have hsrc : src.length ≤ m := (Nat.le_succ _).trans h
    rw [extendLength]
    split_ifs
    · exact hsrc
    · exact ih hsrc

/-- So is a length of LZ4. -/
theorem ends_lz4Length : Ends (lz4Length nibble src) fun p => p.2.length ≤ src.length := by
  rw [lz4Length]
  split_ifs
  · exact ends_extendLength le_rfl
  · exact Nat.le_refl _

/-- An element takes at least its token from the input. -/
theorem ends_lz4Step : Ends (lz4Step uncompLen src out) fun p => p.1.length < src.length := by
  refine .unless nofun fun hne => (ends_index le_rfl (by omega)).bind fun token _ => ?_
  refine (ends_slice (by omega) le_rfl).bind fun src₁ hsrc₁ => ?_
  refine ends_lz4Length.bind fun p hp => .unless nofun fun hshort => ?_
  refine (ends_slice (Nat.zero_le _) (by omega)).bind fun lit _ => ?_
  refine (ends_slice (by omega) le_rfl).bind fun src₂ hsrc₂ => ?_
  split_ifs
  · show src₂.length < src.length
    omega
  · exact nofun
  · refine (ends_littleEndian (by omega)).bind fun offset _ => ?_
    refine (ends_slice (by omega) le_rfl).bind fun src₃ hsrc₃ => .unless nofun fun hoffset => ?_
    refine ends_lz4Length.bind fun q hq => (ends_snappyCopy _ hoffset).bind fun _ _ => ?_
    show q.2.length < src.length
    omega

/-! ## The loops -/

/-- A way to decode an element that uses up input. -/
structure Decoder where
  step : Bytes → Bytes → Except Error (Bytes × Bytes)
  ends_step : Ends (step src out) fun p => p.1.length < src.length

/-- The loop of a decoder. -/
def Decoder.loop (d : Decoder) (declared : Nat) (src out : Bytes) : Except Error Bytes :=
  if out.length < declared then
    match _hstep : d.step src out with
    | .error e => .error e
    | .ok p => d.loop declared p.1 p.2
  else .ok out
termination_by src.length
decreasing_by
  have hends := @Decoder.ends_step d src out
  rwa [_hstep] at hends

/-- A loop from the empty output, and the check of the length after it. -/
def Decoder.decode (d : Decoder) (declared : Nat) (corrupt : Error) (src : Bytes) :
    Except Error Bytes := do
  let out ← d.loop declared src (← makeBytes declared)
  if out.length ≠ declared then .error corrupt else return out

/-- `SnappyDecode` under a limit. -/
def snappyDecode (limit : Nat) (src : Bytes) : Except Error Bytes :=
  let (uncompressed, n) := decodeSnappyVarint src
  if n = 0 then .error errSnappyCorrupt
  else if uncompressed > limit then
    .error (.codec s!"snappy: declared size {uncompressed} exceeds limit {limit}")
  else do
    let src ← slice src n src.length
    Decoder.decode ⟨snappyStep, ends_snappyStep⟩ uncompressed errSnappyCorrupt src

/-- `LZ4Decode` under a limit. -/
def lz4Decode (limit : Nat) (src : Bytes) : Except Error Bytes :=
  if src.length < 8 then .error errLZ4
  else do
    let compLen := beNat (← slice src 0 4)
    let uncompLen := beNat (← slice src 4 8)
    if uncompLen > limit then
      .error (.codec s!"lz4: declared size {uncompLen} exceeds limit {limit}")
    else if src.length < 8 + compLen then .error errLZ4
    else
      let block ← slice src 8 (8 + compLen)
      Decoder.decode ⟨lz4Step uncompLen, ends_lz4Step⟩ uncompLen errLZ4 block

/-- A loop whose elements do not panic does not panic. -/
theorem Decoder.ends_loop (d : Decoder) :
    Ends (d.loop declared src out) fun _ => True := by
  fun_induction d.loop declared src out with
  | case1 src out hlt e hstep =>
    have hends := @ends_step d src out
    rwa [hstep] at hends
  | case2 src out hlt p hstep ih => exact ih
  | case3 src out hge => trivial

/-- What is decoded has the length that was declared. -/
theorem Decoder.ends_decode (d : Decoder) (h : declared ≤ maxAlloc) (hc : corrupt.Returned) :
    Ends (d.decode declared corrupt src) fun out => out.length = declared := by
  rw [decode, makeBytes, if_pos h]
  exact d.ends_loop.bind fun out _ => .unless hc not_not.1

/-- A varint ends within the input. -/
theorem decodeSnappyVarintLoop_le (h : (decodeSnappyVarintLoop i x src).2 ≠ 0) :
    (decodeSnappyVarintLoop i x src).2 ≤ i + src.length := by
  induction src generalizing i x with
  | nil => exact absurd rfl h
  | cons b src ih =>
    rw [decodeSnappyVarintLoop] at h ⊢
    split_ifs at h ⊢
    · exact absurd rfl h
    · exact Nat.add_le_add_left (Nat.le_add_left _ _) _
    · rw [length_cons, Nat.add_comm src.length, ← Nat.add_assoc]
      exact ih h

/-- A block that declares one byte more than a slice can have. -/
def hugeBlock : Bytes := [0x81, 0x80, 0x80, 0x80, 0x80, 0x80, 0x40]

/-- A limit above the largest allocation lets the block through to `make`. -/
theorem snappyDecode_hugeBlock (h : maxAlloc < limit) : snappyDecode limit hugeBlock =
    .error (.panic "runtime error: makeslice: cap out of range") := by
  have hvarint : decodeSnappyVarint hugeBlock = (maxAlloc + 1, 7) := rfl
  rw [snappyDecode, hvarint]
  dsimp only
  rw [if_neg (by decide), if_neg (Nat.not_lt.2 h)]
  rfl

/-- With a limit within it, no input makes `SnappyDecode` panic. -/
theorem ends_snappyDecode (h : limit ≤ maxAlloc) : Ends (snappyDecode limit src)
    fun out => out.length = (decodeSnappyVarint src).1 := by
  refine .unless nofun fun hn => .unless nofun fun hlimit => ?_
  have hle : (decodeSnappyVarint src).2 ≤ src.length :=
    (decodeSnappyVarintLoop_le hn).trans_eq (Nat.zero_add _)
  exact (ends_slice hle le_rfl).bind fun _ _ =>
    Decoder.ends_decode _ ((not_lt.1 hlimit).trans h) nofun

/-- No input makes `LZ4Decode` panic. -/
theorem ends_lz4Decode : Ends (lz4Decode limit src)
    fun out => out.length = beNat ((src.take 8).drop 4) := by
  refine .unless nofun fun hlong => (ends_slice (by decide) (by omega)).bind fun compLen _ => ?_
  have hsize : slice src 4 8 = .ok ((src.take 8).drop 4) := if_pos ⟨by decide, by omega⟩
  rw [hsize]
  refine .unless nofun fun _ => .unless nofun fun hblock => ?_
  refine (ends_slice (by omega) (by omega)).bind fun block _ => Decoder.ends_decode _ ?_ nofun
  -- four bytes declare less than a slice can have
  have hlen : ((src.take 8).drop 4).length ≤ 4 := by
    rw [length_drop, length_take]
    omega
  have hfour : 256 ^ 4 ≤ maxAlloc := by decide
  exact (beNat_lt _).le.trans ((Nat.pow_le_pow_right (by decide) hlen).trans hfour)

/-- Both decoders are total, whatever the input, if the limit is a length that a slice can have:
they return a block of the declared length or an error, and each element uses up input. -/
theorem decodes_total_iff (limit : Nat) :
    ((∀ src, (Ends (snappyDecode limit src) fun out => out.length = (decodeSnappyVarint src).1) ∧
      Ends (lz4Decode limit src) fun out => out.length = beNat ((src.take 8).drop 4)) ∧
      ∀ src out left, snappyStep src out = .ok left ∨ (∃ n, lz4Step n src out = .ok left) →
        left.1.length < src.length) ↔
      limit ≤ maxAlloc := by
  constructor
  · rintro ⟨htotal, -⟩
    by_contra hlarge
    have hends := (htotal hugeBlock).1
    rw [snappyDecode_hugeBlock (not_le.1 hlarge)] at hends
    exact hends _ rfl
  · intro hlimit
    refine ⟨fun src => ⟨ends_snappyDecode hlimit, ends_lz4Decode⟩, ?_⟩
    rintro src out left (hstep | ⟨n, hstep⟩)
    · have hends := @ends_snappyStep src out
      rwa [hstep] at hends
    · have hends := @ends_lz4Step n src out
      rwa [hstep] at hends

/-- The smallest limit that is too large. -/
theorem snappyDecode_panics : ¬ Ends (snappyDecode (2 ^ 48 + 1) hugeBlock) fun _ => True := by
  rw [snappyDecode_hugeBlock (by decide)]
  exact fun h => h _ rfl

/-! ## Round trips -/

def appendSnappyLiteral (dst lit : Bytes) : Bytes :=
  if 0 < lit.length then
    let n := min lit.length 60
    appendSnappyLiteral (dst ++ UInt8.ofNat ((n - 1) <<< 2) :: lit.take n) (lit.drop n)
  else dst
termination_by lit.length

/-- The loop of `SnappyEncode` over the bytes left. -/
def snappyEncodeLoop (dst src : Bytes) : Bytes :=
  if 0 < src.length then
    let n := min src.length 60
    snappyEncodeLoop (appendSnappyLiteral dst (src.take n)) (src.drop n)
  else dst
termination_by src.length

def encodeSnappyVarint (v : Nat) : Bytes := Varint.encode v

def snappyEncode (src : Bytes) : Bytes := snappyEncodeLoop (encodeSnappyVarint src.length) src

/-- The loop of `decodeSnappyVarint` adds the number to the digits it has. -/
theorem decodeSnappyVarintLoop_encode {i x n : Nat} (hi : i < 10) (hx : x < 2 ^ (7 * i))
    (hn : n * 2 ^ (7 * i) < 2 ^ 64) (rest : Bytes) :
    decodeSnappyVarintLoop i x (Varint.encode n ++ rest) =
      (x + n * 2 ^ (7 * i), i + (Varint.encode n).length) := by
  induction n using Nat.strongRecOn generalizing i x with
  | ind n ih =>
    have hdigit : ∀ b : UInt8, (b &&& 0x7f).toNat = b.toNat % 128 := fun b =>
      (UInt8.toNat_and b 0x7f).trans (Nat.and_two_pow_sub_one_eq_mod b.toNat 7)
    have hmod := Nat.mul_le_mul_right (2 ^ (7 * i)) (Nat.mod_le n 128)
    have hor : x ||| (n % 128) <<< (7 * i) % 2 ^ 64 = x + n % 128 * 2 ^ (7 * i) := by
      rw [Nat.mod_eq_of_lt (by rw [Nat.shiftLeft_eq]; omega), lor_shiftLeft hx]
    rcases Nat.lt_or_ge n 128 with hlt | hge
    · have hlast := Varint.toNat_last hlt
      have hend : UInt8.ofNat n < 0x80 := by rwa [UInt8.lt_iff_toNat_lt, hlast]
      rw [Varint.encode_of_lt hlt, cons_append, decodeSnappyVarintLoop, if_neg (by omega), hdigit,
        hlast, hor, if_pos hend, Nat.mod_eq_of_lt hlt]
      rfl
    · have hcont := Varint.toNat_cont n
      have hmore : ¬ UInt8.ofNat n ||| 0x80 < 0x80 := by
        rw [UInt8.lt_iff_toNat_lt, hcont]
        exact Nat.not_lt.2 (Nat.le_add_right _ _)
      have hpow : 2 ^ (7 * (i + 1)) = 128 * 2 ^ (7 * i) := by
        rw [Nat.mul_add, Nat.pow_add, Nat.mul_comm]
      have hdiv : n / 128 * 2 ^ (7 * (i + 1)) + n % 128 * 2 ^ (7 * i) = n * 2 ^ (7 * i) := by
        rw [hpow, ← Nat.mul_assoc, ← Nat.add_mul, Nat.mul_comm _ 128, Nat.div_add_mod]
      have hnext : 2 ^ (7 * (i + 1)) < 2 ^ 64 :=
        (Nat.le_mul_of_pos_left _ (Nat.div_pos hge (by decide))).trans_lt (by omega)
      have hi' := (Nat.pow_lt_pow_iff_right (by decide)).1 hnext
      have hx' : n % 128 * 2 ^ (7 * i) ≤ 127 * 2 ^ (7 * i) := Nat.mul_le_mul_right _ (by omega)
      rw [Varint.encode_of_ge hge, cons_append, decodeSnappyVarintLoop, if_neg (by omega), hdigit,
        hcont, Nat.add_mod_left, Nat.mod_mod, hor, if_neg hmore,
        ih (n / 128) (by omega) (by omega) (by omega) (by omega), length_cons, Prod.mk.injEq]
      omega

/-- The tag of a literal of at most 60 bytes has its length. -/
theorem appendSnappyLiteral_short (h : 0 < lit.length) (h' : lit.length ≤ 60) (dst : Bytes) :
    appendSnappyLiteral dst lit = dst ++ UInt8.ofNat ((lit.length - 1) <<< 2) :: lit := by
  rw [appendSnappyLiteral, if_pos h, min_eq_left h']
  dsimp only
  rw [take_length, drop_length, appendSnappyLiteral]
  rfl

/-- The slice up to where two strings meet. -/
theorem slice_left {as bs : Bytes} : slice (as ++ bs) 0 as.length = .ok as := by
  rw [slice, if_pos (by simp), take_left, drop_zero]

/-- The slice from there on. -/
theorem slice_right {as bs : Bytes} : slice (as ++ bs) as.length (as ++ bs).length = .ok bs := by
  rw [slice, if_pos (by simp), take_length, drop_left]

/-- A literal of up to sixty bytes is one element. -/
theorem snappyStep_literal (h : 0 < lit.length) (h' : lit.length ≤ 60) (src out : Bytes) :
    snappyStep (UInt8.ofNat ((lit.length - 1) <<< 2) :: (lit ++ src)) out =
      .ok (src, out ++ lit) := by
  have htag : ∀ n < 60, (UInt8.ofNat (n <<< 2) &&& 3 = 0 ∧ UInt8.ofNat (n <<< 2) < 0xf0) ∧
      (UInt8.ofNat (n <<< 2) >>> 2).toNat = n := by decide +kernel
  obtain ⟨⟨hliteral, hshort⟩, hlen⟩ := htag (lit.length - 1) (by omega)
  generalize UInt8.ofNat ((lit.length - 1) <<< 2) = tag at *
  have hindex : index (tag :: (lit ++ src)) 0 = .ok tag := rfl
  have htail : slice (tag :: (lit ++ src)) 1 (tag :: (lit ++ src)).length = .ok (lit ++ src) :=
    @slice_right [tag] (lit ++ src)
  have hlitLen : snappyLiteralLen tag (lit ++ src) = .ok (lit.length, lit ++ src) := by
    rw [snappyLiteralLen, if_pos hshort, hlen, Nat.sub_add_cancel h]
  have hfits : ¬ (lit ++ src).length < lit.length := by simp
  rw [snappyStep, if_neg (by simp), hindex, htail]
  simp only [bind, Except.bind, if_pos hliteral, hlitLen, if_neg hfits, slice_left, slice_right]
  rfl

/-- A round of the loop. -/
theorem Decoder.loop_step {d : Decoder} (h : out.length < declared)
    (hstep : d.step src out = .ok p) : d.loop declared src out = d.loop declared p.1 p.2 := by
  rw [loop, if_pos h]
  split
  · next heq => cases hstep.symm.trans heq
  · next heq => rw [Except.ok.inj (hstep.symm.trans heq)]

/-- The end of the loop. -/
theorem Decoder.loop_done {d : Decoder} (h : declared ≤ out.length) :
    d.loop declared src out = .ok out := by
  rw [loop, if_neg (Nat.not_lt.2 h)]

/-- A loop that ends with the declared length gives its output. -/
theorem Decoder.decode_eq_ok {d : Decoder} (h : out.length ≤ maxAlloc)
    (hloop : d.loop out.length src [] = .ok out) :
    d.decode out.length corrupt src = .ok out := by
  rw [decode, makeBytes, if_pos h]
  simp only [bind, Except.bind, hloop, ne_eq, not_true, if_false]
  rfl

/-- The loop of the decoder undoes that of the encoder, whatever stands before. -/
theorem loop_snappyEncodeLoop (dst src : Bytes) :
    ∃ body, snappyEncodeLoop dst src = dst ++ body ∧ ∀ out,
      Decoder.loop ⟨snappyStep, ends_snappyStep⟩ (out.length + src.length) body out =
        .ok (out ++ src) := by
  fun_induction snappyEncodeLoop dst src with
  | case1 dst src hpos n ih =>
    obtain ⟨body, hbody, hloop⟩ := ih
    have hlen : (src.take n).length = n := length_take_of_le (Nat.min_le_left ..)
    have hn : 0 < (src.take n).length := by omega
    have hn' : (src.take n).length ≤ 60 := by omega
    rw [appendSnappyLiteral_short hn hn', append_assoc, cons_append] at hbody
    rw [appendSnappyLiteral_short hn hn']
    refine ⟨_, hbody, fun out => ?_⟩
    have hrest := hloop (out ++ src.take n)
    rw [append_assoc, take_append_drop, length_append, Nat.add_assoc, ← length_append,
      take_append_drop] at hrest
    rw [Decoder.loop_step (by omega) (snappyStep_literal hn hn' body out), hrest]
  | case2 dst src hempty =>
    obtain rfl := length_eq_zero_iff.1 (Nat.eq_zero_of_not_pos hempty)
    refine ⟨[], (append_nil dst).symm, fun out => ?_⟩
    exact (Decoder.loop_done le_rfl).trans (congrArg _ (append_nil out).symm)

/-- What `SnappyEncode` makes of bytes within the limit is decoded to these bytes. -/
theorem snappyDecode_snappyEncode {src : Bytes} {limit : Nat} (h : src.length ≤ limit)
    (hslice : src.length ≤ maxAlloc) : snappyDecode limit (snappyEncode src) = .ok src := by
  obtain ⟨body, hbody, hloop⟩ := loop_snappyEncodeLoop (Varint.encode src.length) src
  have hsmall : src.length * 2 ^ (7 * 0) < 2 ^ 64 := by
    rw [maxAlloc] at hslice
    omega
  have hvarint := @decodeSnappyVarintLoop_encode 0 0 _ (by decide) (by decide) hsmall body
  rw [Nat.mul_zero, Nat.pow_zero, Nat.mul_one, Nat.zero_add, Nat.zero_add] at hvarint
  have hpos := Varint.size_pos src.length
  rw [← Varint.length_encode] at hpos
  rw [snappyEncode, encodeSnappyVarint, hbody, snappyDecode, decodeSnappyVarint, hvarint]
  dsimp only
  rw [if_neg hpos.ne', if_neg (Nat.not_lt.2 h), slice_right]
  refine Decoder.decode_eq_ok hslice ?_
  have hrest := hloop []
  rwa [length_nil, Nat.zero_add] at hrest

/-- Bytes that take three literals. -/
theorem snappyDecode_snappyEncode_threeLiterals :
    snappyDecode 200 (snappyEncode ((range 150).map UInt8.ofNat)) =
      .ok ((range 150).map UInt8.ofNat) :=
  snappyDecode_snappyEncode (by simp) (by simp [maxAlloc])

end GoKafka.Compress
