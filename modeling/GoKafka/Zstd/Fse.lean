import GoKafka.Zstd.Bits

/-!
# The entropy coder of the sequences

A sequence's three codes (literal length, offset, match length) are entropy coded by finite state
machines, one for each. The encoder's machine is built from a table of weights (`buildCTable`,
`fse_enc.go`): coding a symbol emits the low bits of the state and moves on. The decoder's are the
predefined tables of `fse.go`, spelled out there. `predefinedEncoders` are the tables that come of
building (`initPredefinedEncoders_eq`).
-/

namespace GoKafka.Zstd

open BitString

/-! ## Codes -/

def highBit32 (v : Nat) : Nat := if v = 0 then 0 else v.log2

def llCodeTable : List Nat :=
  [0, 1, 2, 3, 4, 5, 6, 7, 8, 9, 10, 11, 12, 13, 14, 15, 16, 16, 17, 17, 18, 18, 19, 19, 20, 20, 20,
    20, 21, 21, 21, 21, 22, 22, 22, 22, 22, 22, 22, 22, 23, 23, 23, 23, 23, 23, 23, 23, 24, 24, 24,
    24, 24, 24, 24, 24, 24, 24, 24, 24, 24, 24, 24, 24]

def llBitsTable : List Nat :=
  [0, 0, 0, 0, 0, 0, 0, 0, 0, 0, 0, 0, 0, 0, 0, 0, 1, 1, 1, 1, 2, 2, 3, 3, 4, 6, 7, 8, 9, 10, 11,
    12, 13, 14, 15, 16]

def mlCodeTable : List Nat :=
  [0, 1, 2, 3, 4, 5, 6, 7, 8, 9, 10, 11, 12, 13, 14, 15, 16, 17, 18, 19, 20, 21, 22, 23, 24, 25, 26,
    27, 28, 29, 30, 31, 32, 32, 33, 33, 34, 34, 35, 35, 36, 36, 36, 36, 37, 37, 37, 37, 38, 38, 38,
    38, 38, 38, 38, 38, 39, 39, 39, 39, 39, 39, 39, 39, 40, 40, 40, 40, 40, 40, 40, 40, 40, 40, 40,
    40, 40, 40, 40, 40, 41, 41, 41, 41, 41, 41, 41, 41, 41, 41, 41, 41, 41, 41, 41, 41, 42, 42, 42,
    42, 42, 42, 42, 42, 42, 42, 42, 42, 42, 42, 42, 42, 42, 42, 42, 42, 42, 42, 42, 42, 42, 42, 42,
    42, 42, 42, 42, 42]

def mlBitsTable : List Nat :=
  [0, 0, 0, 0, 0, 0, 0, 0, 0, 0, 0, 0, 0, 0, 0, 0, 0, 0, 0, 0, 0, 0, 0, 0, 0, 0, 0, 0, 0, 0, 0, 0,
    1, 1, 1, 1, 2, 2, 3, 3, 4, 4, 5, 7, 8, 9, 10, 11, 12, 13, 14, 15, 16]

def llCode (litLength : Nat) : Nat :=
  if litLength ≤ 63 then llCodeTable.getD litLength 0 else highBit32 litLength + 19

def mlCode (mlBase : Nat) : Nat :=
  if mlBase ≤ 127 then mlCodeTable.getD mlBase 0 else highBit32 mlBase + 36

/-- `ofCode`: `bits.Len32(offset) - 1`. -/
def ofCode (offset : Nat) : Nat := offset.log2

/-! ## Baselines -/

structure FseEntry where
  sym : Nat
  bits : Nat
  base : Nat
  deriving DecidableEq

structure FseBaselineEntry where
  baseline : Nat
  basebits : Nat
  bits : Nat
  base : Nat
  deriving DecidableEq

/-- `literalLengthBase`: the baseline and the number of bits that the source packs in one word. -/
def literalLengthBase : List (Nat × Nat) :=
  [(16, 1), (18, 1), (20, 1), (22, 1), (24, 2), (28, 2), (32, 3), (40, 3), (48, 4), (64, 6),
    (128, 7), (256, 8), (512, 9), (1024, 10), (2048, 11), (4096, 12), (8192, 13), (16384, 14),
    (32768, 15), (65536, 16)]

def matchLengthBase : List (Nat × Nat) :=
  [(35, 1), (37, 1), (39, 1), (41, 1), (43, 2), (47, 2), (51, 3), (59, 3), (67, 4), (83, 4),
    (99, 5), (131, 7), (259, 8), (515, 9), (1027, 10), (2051, 11), (4099, 12), (8195, 13),
    (16387, 14), (32771, 15), (65539, 16)]

/-- The baseline and the number of extra bits of a code, as `makeLiteralBaselineFSE` has them. -/
def literalBase (sym : Nat) : Except ReadError (Nat × Nat) :=
  if sym < 16 then .ok (sym, 0)
  else if sym > 35 then .error (.zstd "FSE baseline symbol overflow")
  else .ok (literalLengthBase.getD (sym - 16) (0, 0))

/-- Those of `makeOffsetBaselineFSE`. -/
def offsetBase (sym : Nat) : Except ReadError (Nat × Nat) :=
  if sym > 31 then .error (.zstd "FSE offset symbol overflow")
  else if sym ≥ 2 then .ok (2 ^ sym - 3, sym)
  else .ok (2 ^ sym, sym)

/-- Those of `makeMatchBaselineFSE`. -/
def matchBase (sym : Nat) : Except ReadError (Nat × Nat) :=
  if sym < 32 then .ok (sym + 3, 0)
  else if sym > 52 then .error (.zstd "FSE baseline symbol overflow")
  else .ok (matchLengthBase.getD (sym - 32) (0, 0))

/-- What the three `make…BaselineFSE` do with an entry. -/
def toBaseline (base : Nat → Except ReadError (Nat × Nat)) (e : FseEntry) :
    Except ReadError FseBaselineEntry := do
  let (baseline, basebits) ← base e.sym
  return ⟨baseline, basebits, e.bits, e.base⟩

def predefinedLiteralTable : List FseBaselineEntry :=
  [⟨0, 0, 4, 0⟩, ⟨0, 0, 4, 16⟩, ⟨1, 0, 5, 32⟩, ⟨3, 0, 5, 0⟩, ⟨4, 0, 5, 0⟩, ⟨6, 0, 5, 0⟩,
    ⟨7, 0, 5, 0⟩, ⟨9, 0, 5, 0⟩, ⟨10, 0, 5, 0⟩, ⟨12, 0, 5, 0⟩, ⟨14, 0, 6, 0⟩, ⟨16, 1, 5, 0⟩,
    ⟨20, 1, 5, 0⟩, ⟨22, 1, 5, 0⟩, ⟨28, 2, 5, 0⟩, ⟨32, 3, 5, 0⟩, ⟨48, 4, 5, 0⟩, ⟨64, 6, 5, 32⟩,
    ⟨128, 7, 5, 0⟩, ⟨256, 8, 6, 0⟩, ⟨1024, 10, 6, 0⟩, ⟨4096, 12, 6, 0⟩, ⟨0, 0, 4, 32⟩,
    ⟨1, 0, 4, 0⟩, ⟨2, 0, 5, 0⟩, ⟨4, 0, 5, 32⟩, ⟨5, 0, 5, 0⟩, ⟨7, 0, 5, 32⟩, ⟨8, 0, 5, 0⟩,
    ⟨10, 0, 5, 32⟩, ⟨11, 0, 5, 0⟩, ⟨13, 0, 6, 0⟩, ⟨16, 1, 5, 32⟩, ⟨18, 1, 5, 0⟩, ⟨22, 1, 5, 32⟩,
    ⟨24, 2, 5, 0⟩, ⟨32, 3, 5, 32⟩, ⟨40, 3, 5, 0⟩, ⟨64, 6, 4, 0⟩, ⟨64, 6, 4, 16⟩, ⟨128, 7, 5, 32⟩,
    ⟨512, 9, 6, 0⟩, ⟨2048, 11, 6, 0⟩, ⟨0, 0, 4, 48⟩, ⟨1, 0, 4, 16⟩, ⟨2, 0, 5, 32⟩, ⟨3, 0, 5, 32⟩,
    ⟨5, 0, 5, 32⟩, ⟨6, 0, 5, 32⟩, ⟨8, 0, 5, 32⟩, ⟨9, 0, 5, 32⟩, ⟨11, 0, 5, 32⟩, ⟨12, 0, 5, 32⟩,
    ⟨15, 0, 6, 0⟩, ⟨18, 1, 5, 32⟩, ⟨20, 1, 5, 32⟩, ⟨24, 2, 5, 32⟩, ⟨28, 2, 5, 32⟩,
    ⟨40, 3, 5, 32⟩, ⟨48, 4, 5, 32⟩, ⟨65536, 16, 6, 0⟩, ⟨32768, 15, 6, 0⟩, ⟨16384, 14, 6, 0⟩,
    ⟨8192, 13, 6, 0⟩]

def predefinedOffsetTable : List FseBaselineEntry :=
  [⟨1, 0, 5, 0⟩, ⟨61, 6, 4, 0⟩, ⟨509, 9, 5, 0⟩, ⟨32765, 15, 5, 0⟩, ⟨2097149, 21, 5, 0⟩,
    ⟨5, 3, 5, 0⟩, ⟨125, 7, 4, 0⟩, ⟨4093, 12, 5, 0⟩, ⟨262141, 18, 5, 0⟩, ⟨8388605, 23, 5, 0⟩,
    ⟨29, 5, 5, 0⟩, ⟨253, 8, 4, 0⟩, ⟨16381, 14, 5, 0⟩, ⟨1048573, 20, 5, 0⟩, ⟨1, 2, 5, 0⟩,
    ⟨125, 7, 4, 16⟩, ⟨2045, 11, 5, 0⟩, ⟨131069, 17, 5, 0⟩, ⟨4194301, 22, 5, 0⟩, ⟨13, 4, 5, 0⟩,
    ⟨253, 8, 4, 16⟩, ⟨8189, 13, 5, 0⟩, ⟨524285, 19, 5, 0⟩, ⟨2, 1, 5, 0⟩, ⟨61, 6, 4, 16⟩,
    ⟨1021, 10, 5, 0⟩, ⟨65533, 16, 5, 0⟩, ⟨268435453, 28, 5, 0⟩, ⟨134217725, 27, 5, 0⟩,
    ⟨67108861, 26, 5, 0⟩, ⟨33554429, 25, 5, 0⟩, ⟨16777213, 24, 5, 0⟩]

def predefinedMatchTable : List FseBaselineEntry :=
  [⟨3, 0, 6, 0⟩, ⟨4, 0, 4, 0⟩, ⟨5, 0, 5, 32⟩, ⟨6, 0, 5, 0⟩, ⟨8, 0, 5, 0⟩, ⟨9, 0, 5, 0⟩,
    ⟨11, 0, 5, 0⟩, ⟨13, 0, 6, 0⟩, ⟨16, 0, 6, 0⟩, ⟨19, 0, 6, 0⟩, ⟨22, 0, 6, 0⟩, ⟨25, 0, 6, 0⟩,
    ⟨28, 0, 6, 0⟩, ⟨31, 0, 6, 0⟩, ⟨34, 0, 6, 0⟩, ⟨37, 1, 6, 0⟩, ⟨41, 1, 6, 0⟩, ⟨47, 2, 6, 0⟩,
    ⟨59, 3, 6, 0⟩, ⟨83, 4, 6, 0⟩, ⟨131, 7, 6, 0⟩, ⟨515, 9, 6, 0⟩, ⟨4, 0, 4, 16⟩, ⟨5, 0, 4, 0⟩,
    ⟨6, 0, 5, 32⟩, ⟨7, 0, 5, 0⟩, ⟨9, 0, 5, 32⟩, ⟨10, 0, 5, 0⟩, ⟨12, 0, 6, 0⟩, ⟨15, 0, 6, 0⟩,
    ⟨18, 0, 6, 0⟩, ⟨21, 0, 6, 0⟩, ⟨24, 0, 6, 0⟩, ⟨27, 0, 6, 0⟩, ⟨30, 0, 6, 0⟩, ⟨33, 0, 6, 0⟩,
    ⟨35, 1, 6, 0⟩, ⟨39, 1, 6, 0⟩, ⟨43, 2, 6, 0⟩, ⟨51, 3, 6, 0⟩, ⟨67, 4, 6, 0⟩, ⟨99, 5, 6, 0⟩,
    ⟨259, 8, 6, 0⟩, ⟨4, 0, 4, 32⟩, ⟨4, 0, 4, 48⟩, ⟨5, 0, 4, 16⟩, ⟨7, 0, 5, 32⟩, ⟨8, 0, 5, 32⟩,
    ⟨10, 0, 5, 32⟩, ⟨11, 0, 5, 32⟩, ⟨14, 0, 6, 0⟩, ⟨17, 0, 6, 0⟩, ⟨20, 0, 6, 0⟩, ⟨23, 0, 6, 0⟩,
    ⟨26, 0, 6, 0⟩, ⟨29, 0, 6, 0⟩, ⟨32, 0, 6, 0⟩, ⟨65539, 16, 6, 0⟩, ⟨32771, 15, 6, 0⟩,
    ⟨16387, 14, 6, 0⟩, ⟨8195, 13, 6, 0⟩, ⟨4099, 12, 6, 0⟩, ⟨2051, 11, 6, 0⟩, ⟨1027, 10, 6, 0⟩]

/-! ## The encoder's tables -/

structure SymbolTransform where
  deltaNbBits : Nat
  deltaFindState : Int
  outBits : Nat
  deriving DecidableEq

/-- `fseEncoder`, with its `cTable` spread out. -/
structure FseEncoder where
  actualTableLog : Nat
  tableSymbol : List Nat
  stateTable : List Nat
  symbolTT : List SymbolTransform
  deriving DecidableEq

def tableStep (tableSize : Nat) : Nat := tableSize / 2 + tableSize / 8 + 3

/-- The cells a weight takes: those of weight `-1` take one. -/
def cells (v : Int) : Int := if v = -1 then 1 else v

/-- The first loops of `buildCTable`: the symbols of weight `-1` take the highest cells. Returns
the cells and the highest one left. -/
def placeRare (norm : List Int) (tableSize : Nat) : List Nat × Nat :=
  norm.zipIdx.foldl (fun (tableSymbol, highThreshold) (v, u) =>
    if v = -1 then (tableSymbol.set highThreshold u, highThreshold - 1)
    else (tableSymbol, highThreshold)) (List.replicate tableSize 0, tableSize - 1)

/-- The inner loop of `buildCTable`: on to the next cell that no rare symbol has taken. A step is
odd, so it comes by every cell within a round. -/
def nextPosition (tableSize highThreshold : Nat) : Nat → Nat → Nat
  | 0, position => position
  | rounds + 1, position =>
    let position := (position + tableStep tableSize) % tableSize
    if position > highThreshold then nextPosition tableSize highThreshold rounds position
    else position

/-- The loop of `buildCTable` that spreads the other symbols over the cells left. -/
def spreadSymbols (norm : List Int) (tableSize highThreshold : Nat) (tableSymbol : List Nat) :
    List Nat × Nat :=
  norm.zipIdx.foldl (fun cells (v, u) =>
    (List.range v.toNat).foldl (fun (tableSymbol, position) _ =>
      (tableSymbol.set position u, nextPosition tableSize highThreshold tableSize position)) cells)
    (tableSymbol, 0)

/-- The loop of `buildCTable` that fills the state table: the states of a symbol, in order, from
its first place on. -/
def fillStates (tableSize : Nat) (cumul : List Int) (tableSymbol : List Nat) : List Nat :=
  (tableSymbol.zipIdx.foldl (fun (table, cumul) (v, u) =>
    (table.set (cumul.getD v 0).toNat (tableSize + u), cumul.modify v (· + 1)))
    (List.replicate tableSize 0, cumul)).1

/-- The last loop of `buildCTable`; `outBits` is set by `setBits`. -/
def transforms (tableLog : Nat) (norm : List Int) (bits : List Nat) :
    List SymbolTransform × Int :=
  (norm.zip bits).foldl (fun (symbolTT, total) (v, outBits) =>
    if v = 0 then (symbolTT ++ [⟨0, 0, outBits⟩], total)
    else if v = -1 ∨ v = 1 then
      (symbolTT ++ [⟨tableLog * 2 ^ 16 - 2 ^ tableLog, total - 1, outBits⟩], total + 1)
    else
      let maxBitsOut := tableLog - highBit32 (v - 1).toNat
      let minStatePlus := v.toNat <<< maxBitsOut
      (symbolTT ++ [⟨maxBitsOut * 2 ^ 16 - minStatePlus, total - v, outBits⟩], total + v))
    ([], 0)

/-- `fseEncoder.buildCTable`, followed by `setBits bits`. -/
def buildCTable (norm : List Int) (tableLog : Nat) (bits : List Nat) : Except String FseEncoder :=
  let tableSize := 2 ^ tableLog
  let cumul := norm.scanl (fun c v => c + cells v) 0
  let (tableSymbol, highThreshold) := placeRare norm tableSize
  if cumul.getLastD 0 ≠ tableSize then .error "fse cumul mismatch"
  else
    let (tableSymbol, position) := spreadSymbols norm tableSize highThreshold tableSymbol
    if position ≠ 0 then .error "fse position error"
    else
      let (symbolTT, total) := transforms tableLog norm bits
      if total ≠ tableSize then .error "fse total mismatch"
      else .ok ⟨tableLog, tableSymbol, fillStates tableSize cumul tableSymbol, symbolTT⟩

/-- The weights of `initPredefinedEncoders`: literal lengths, offsets and match lengths. -/
def literalNorm : List Int :=
  [4, 3, 2, 2, 2, 2, 2, 2, 2, 2, 2, 2, 2, 1, 1, 1, 2, 2, 2, 2, 2, 2, 2, 2, 2, 3, 2, 1, 1, 1, 1, 1,
    -1, -1, -1, -1]

@[inherit_doc literalNorm]
def offsetNorm : List Int :=
  [1, 1, 1, 1, 1, 1, 2, 2, 2, 1, 1, 1, 1, 1, 1, 1, 1, 1, 1, 1, 1, 1, 1, 1, -1, -1, -1, -1, -1]

@[inherit_doc literalNorm]
def matchNorm : List Int :=
  [1, 4, 3, 2, 2, 2, 2, 2, 2, 1, 1, 1, 1, 1, 1, 1, 1, 1, 1, 1, 1, 1, 1, 1, 1, 1, 1, 1, 1, 1, 1, 1,
    1, 1, 1, 1, 1, 1, 1, 1, 1, 1, 1, 1, 1, 1, -1, -1, -1, -1, -1, -1, -1]

/-- `fsePredefEnc`: the encoders of literal lengths, offsets and match lengths. -/
structure Encoders where
  ll : FseEncoder
  of : FseEncoder
  ml : FseEncoder
  deriving DecidableEq

/-- `initPredefinedEncoders`; `setBits(nil)` gives every offset code its own number of bits. The
source panics where this is an error. -/
def initPredefinedEncoders : Except String Encoders := do
  return ⟨← buildCTable literalNorm 6 llBitsTable, ← buildCTable offsetNorm 5 (List.range 29),
    ← buildCTable matchNorm 6 mlBitsTable⟩

/-- What `buildCTable` returns for weights it accepts. -/
@[irreducible]
def builtCTable (norm : List Int) (tableLog : Nat) (bits : List Nat) : FseEncoder :=
  (buildCTable norm tableLog bits).toOption.getD ⟨tableLog, [], [], []⟩

/-- The tables that `initPredefinedEncoders` builds (`initPredefinedEncoders_eq`). -/
def predefinedEncoders : Encoders :=
  ⟨{ builtCTable literalNorm 6 llBitsTable with actualTableLog := 6 },
    { builtCTable offsetNorm 5 (List.range 29) with actualTableLog := 5 },
    { builtCTable matchNorm 6 mlBitsTable with actualTableLog := 6 }⟩

theorem initPredefinedEncoders_eq : initPredefinedEncoders = .ok predefinedEncoders := by
  decide +kernel

/-! ## Coding a symbol -/

namespace FseEncoder

/-- The entry of a symbol; the source's table has 256, those beyond the symbols all zero. -/
def transform (enc : FseEncoder) (sym : Nat) : SymbolTransform := enc.symbolTT.getD sym ⟨0, 0, 0⟩

/-- `cState.init`. -/
def initState (enc : FseEncoder) (sym : Nat) : Nat :=
  let first := enc.transform sym
  let nbBitsOut := (first.deltaNbBits + 2 ^ 15) >>> 16
  let im := nbBitsOut <<< 16 - first.deltaNbBits
  enc.stateTable.getD ((im >>> nbBitsOut : Nat) + first.deltaFindState).toNat 0

/-- The number of bits `encodeSequenceStates` emits for a symbol: the low ones of the state. -/
def nbBitsOut (enc : FseEncoder) (sym state : Nat) : Nat :=
  (state + (enc.transform sym).deltaNbBits) >>> 16

/-- The state `encodeSequenceStates` moves to. -/
def nextState (enc : FseEncoder) (sym state : Nat) : Nat :=
  let shifted := state >>> (enc.nbBitsOut sym state % 16)
  enc.stateTable.getD ((shifted : Nat) + (enc.transform sym).deltaFindState).toNat 0

end FseEncoder

end GoKafka.Zstd
