import ProviderKit.Shell.Program.Files

/-!
# Programs that work on lines

Programs that write some of the lines of files, or the lines in another order, or count them. They
read their operands one after the other, or the input if there are none.
-/

namespace ProviderKit.Shell.Program

/-- A number of lines or bytes, with a sign and a unit. -/
structure Amount where
  sign : Option Char
  count : Nat

/-- The amount that a text denotes. -/
def amount? (t : Text) : Option Amount :=
  let (sign, t) : Option Char × Text := match t with
    | .char '+' :: rest => (some '+', rest)
    | .char '-' :: rest => (some '-', rest)
    | t => (none, t)
  let digits := t.takeWhile (·.satisfies Char.isDigit)
  let factor? : Option Nat := match Text.toString (t.drop digits.length) with
    | "" => some 1
    | "b" => some 512
    | "kB" => some 1000
    | "k" | "K" | "KiB" => some 1024
    | "MB" => some 1000000
    | "m" | "M" | "MiB" => some (1024 * 1024)
    | "G" | "GiB" => some (1024 * 1024 * 1024)
    | _ => none
  if digits.isEmpty then none
  else factor?.map fun factor => { sign, count := Text.digitsValue digits * factor }

/-- The arguments in which a dash with digits stands for a number of lines. -/
def withCounts : List Text → List Text
  | [] => []
  | a :: rest =>
    if a.hasPrefix "-" && Control.isNumeral (a.drop 1) then
      Text.ofString "-n" :: a.drop 1 :: withCounts rest
    else if a = Text.ofString "-n" || a = Text.ofString "-c" then
      match rest with
      | [] => [a]
      | value :: rest => a :: value :: withCounts rest
    else a :: withCounts rest

/-- The options of programs that write one end of files. -/
def endOptions : Known :=
  { letters := "fFqvz", valued := "nc"
    names := [("lines", 'n'), ("bytes", 'c'), ("quiet", 'q'), ("silent", 'q'), ("verbose", 'v')] }

/-- Writes a part of each operand, after a line with its name if there are several: `part` gives
what an amount leaves of lines or bytes. -/
def writeEnds (name : String) (arguments : List Text)
    (part : {α : Type} → Amount → List α → List α) : Action Nat := do
  let g ← read name endOptions (withCounts arguments)
  let counted := (g.options.reverse.find? fun (c, _) => c = 'n' || c = 'c').getD ('n', "10")
  let isBytes := counted.1 = 'c'
  let kind : Text := if isBytes then "bytes" else "lines"
  match amount? counted.2 with
  | none =>
    stop 1 (Text.ofString name ++ ": invalid number of " ++ kind ++ ": " ++ named counted.2)
  | some amount =>
    let isHeaded := g.has 'v' || (g.operands.length > 1 && !g.has 'q')
    let mut isFirst := true
    let mut status := 0
    for operand in (if g.operands.isEmpty then [Text.ofString "-"] else g.operands) do
      let isZero := isBytes && Device.at? (pathOf (← get) operand) matches some .zero
      let content ← if isZero then pure (.ok (List.replicate amount.count 0)) else contentOf operand
      match content with
      | .error (.refused .isDirectory _) =>
        complain (Text.ofString name ++ ": error reading " ++ named operand ++ ": Is a directory")
        status := 1
      | .error fault =>
        complain (Text.ofString name ++ ": cannot open " ++ named operand ++ " for reading: " ++
          reasonText fault)
        status := 1
      | .ok bytes =>
        if isHeaded then
          let title : Text :=
            if operand = Text.ofString "-" then "standard input" else Shown.plain operand
          if !isFirst then write "\n"
          write ("==> " ++ title ++ " <==\n")
          isFirst := false
        writeBytes (if isBytes then part amount bytes else (part amount (cutLines bytes)).flatten)
    pure status

/-- Writes the beginnings of files. -/
def head : Utility := fun arguments =>
  writeEnds "head" arguments fun amount items =>
    if amount.sign = some '-' then items.take (items.length - amount.count)
    else items.take amount.count

/-- Writes the ends of files. -/
def tail : Utility := fun arguments =>
  writeEnds "tail" arguments fun amount items =>
    if amount.sign = some '+' then items.drop (amount.count - 1)
    else items.drop (items.length - amount.count)

/-- The number of words in bytes. -/
def wordsIn (bytes : Bytes) : Nat :=
  let isSpace (b : UInt8) : Bool := b = 32 || (9 ≤ b && b ≤ 13)
  (bytes.foldl (fun (inWord, n) b =>
    if isSpace b then (false, n) else (true, if inWord then n else n + 1)) (false, 0)).2

/-- A text behind as many blanks as fill a width. -/
def padLeft (width : Nat) (t : Text) : Text :=
  List.replicate (width - t.length) (.char ' ') ++ t

/-- Counts lines, words and bytes. -/
def wc : Utility := fun arguments => do
  let g ← read "wc"
    { letters := "clmwL"
      names := [("bytes", 'c'), ("chars", 'm'), ("lines", 'l'), ("words", 'w'),
        ("max-line-length", 'L')] } arguments
  let isPlain := g.options.isEmpty
  let counts (bytes : Bytes) : List (Char × Nat) :=
    [('l', bytes.count 10), ('w', wordsIn bytes), ('m', bytes.length), ('c', bytes.length),
     ('L', ((cutLines bytes).map fun line => (withoutEnd line).length).foldl max 0)]
  let asked (c : Char) : Bool := if isPlain then "lwc".toList.contains c else g.has c
  let shown (bytes : Bytes) : List (Char × Nat) := (counts bytes).filter fun (c, _) => asked c
  let operands := if g.operands.isEmpty then [Text.ofString "-"] else g.operands
  let contents ← operands.mapM fun operand => do
    let s ← get
    let isFile : Bool := if operand = Text.ofString "-" then
        s.channel? 0 matches some (_, .file ..) else true
    pure (operand, isFile, ← contentOf operand)
  let readable := contents.filterMap fun (_, isFile, content) =>
    content.toOption.map fun bytes => (isFile, bytes)
  let sizes := readable.map fun (isFile, bytes) => if isFile then bytes.length else 0
  let total := sizes.foldl (· + ·) 0
  let least := if readable.all (·.1) then 1 else 7
  let width := if operands.length = 1 && (shown []).length = 1 then 1
    else max least (Text.ofNat total).length
  let line (numbers : List Nat) (title : Text) : Action Unit :=
    writeLine (Text.join " " (numbers.map fun n => padLeft width (Text.ofNat n)) ++
      (if title.isEmpty then [] else .char ' ' :: Shown.plain title))
  let mut status := 0
  for (operand, _, content) in contents do
    match content with
    | .ok bytes => line ((shown bytes).map (·.2)) (if g.operands.isEmpty then [] else operand)
    | .error fault =>
      complain (plainComplaint "wc" operand fault)
      status := 1
      if fault matches .refused .isDirectory _ then line ((shown []).map (·.2)) operand
  if operands.length > 1 then
    let sums := readable.foldl (fun sums (_, bytes) =>
      (sums.zip (shown bytes)).map fun (sum, (c, n)) => if c = 'L' then max sum n else sum + n)
      ((shown []).map fun _ => 0)
    line sums "total"
  pure status

/-- The number at the beginning of a line, as a fraction. -/
def leadingNumber (line : Bytes) : Int × Nat :=
  let line := line.dropWhile fun b => b = 32 || b = 9
  let isNegative := line.head? = some 45
  let line := if isNegative then line.drop 1 else line
  let isDigit (b : UInt8) : Bool := 48 ≤ b && b ≤ 57
  let whole := line.takeWhile isDigit
  let fraction : Bytes := match line.drop whole.length with
    | 46 :: rest => rest.takeWhile isDigit
    | _ => []
  let n : Nat := (whole ++ fraction).foldl (fun n b => 10 * n + (b.toNat - 48)) 0
  (if isNegative then -n else n, Nat.pow 10 fraction.length)

/-- The order of bytes: the first difference decides, and a beginning comes before the whole. -/
def bytesLe : Bytes → Bytes → Bool
  | [], _ => true
  | _ :: _, [] => false
  | a :: s, b :: t => a < b || (a = b && bytesLe s t)

/-- The order of numbers at the beginnings of lines. -/
def numberLe (a b : Bytes) : Bool :=
  let (m, d) := leadingNumber a
  let (n, e) := leadingNumber b
  m * e ≤ n * d

/-- The contents of operands together, and the status. -/
def allContents (operands : List Text) (complaint : Text → Disk.Fault → Text) :
    Action (Nat × List Bytes) := do
  let mut status := 0
  let mut contents : List Bytes := []
  for operand in (if operands.isEmpty then [Text.ofString "-"] else operands) do
    match ← contentOf operand with
    | .ok bytes => contents := contents ++ [bytes]
    | .error fault =>
      complain (complaint operand fault)
      status := 1
  pure (status, contents)

/-- The lines of a list without those that are the same as the one before them. -/
def withoutRepeats (same : Bytes → Bytes → Bool) : List Bytes → List Bytes
  | [] => []
  | [line] => [line]
  | first :: second :: rest =>
    if same first second then withoutRepeats same (first :: rest)
    else first :: withoutRepeats same (second :: rest)
termination_by lines => lines.length

/-- Writes lines in order. -/
def sort : Utility := fun arguments => do
  let g ← read "sort"
    { letters := "bcdfghinrsuVz", valued := "kotST", status := 2
      names := [("numeric-sort", 'n'), ("reverse", 'r'), ("unique", 'u'), ("output", 'o'),
        ("ignore-case", 'f'), ("stable", 's'), ("check", 'c')] } arguments
  let complaint (operand : Text) (fault : Disk.Fault) : Text :=
    "sort: cannot read: " ++ Shown.plain operand ++ ": " ++ reasonText fault
  let (status, contents) ← allContents g.operands complaint
  if status != 0 then throw (.exit 2)
  let lines := (contents.flatMap cutLines).map withoutEnd
  let upper (line : Bytes) : Bytes :=
    line.map fun b => if 97 ≤ b && b ≤ 122 then b - 32 else b
  let trim (line : Bytes) : Bytes :=
    if g.has 'b' then line.dropWhile fun b => b = 32 || b = 9 else line
  let key (line : Bytes) : Bytes := if g.has 'f' then upper (trim line) else trim line
  let keyLe (a b : Bytes) : Bool :=
    if g.has 'n' then numberLe a b else bytesLe (key a) (key b)
  let same (a b : Bytes) : Bool := keyLe a b && keyLe b a
  let forward (a b : Bytes) : Bool :=
    if same a b then g.has 's' || g.has 'u' || bytesLe a b else keyLe a b
  let le (a b : Bytes) : Bool :=
    if g.has 'r' then (if same a b && (g.has 's' || g.has 'u') then true else forward b a)
    else forward a b
  let sorted := lines.mergeSort le
  let sorted := if g.has 'u' then withoutRepeats same sorted else sorted
  let bytes := sorted.flatMap fun line => line ++ [10]
  match g.value? 'o' with
  | none =>
    writeBytes bytes
    pure 0
  | some target =>
    let s ← get
    match s.disk.write (pathOf s target) (.bytes bytes) with
    | .ok disk =>
      set { s with disk }
      pure 0
    | .error fault =>
      stop 2 ("sort: open failed: " ++ Shown.plain target ++ ": " ++ reasonText fault)

/-- Lines that follow one another and are the same, with their number. -/
def runsOf (same : Bytes → Bytes → Bool) : List Bytes → List (Nat × Bytes)
  | [] => []
  | line :: rest =>
    match runsOf same rest with
    | (n, next) :: runs => if same line next then (n + 1, line) :: runs else (1, line) :: (n, next) :: runs
    | [] => [(1, line)]

/-- Writes lines that repeat the one before them only once. -/
def uniq : Utility := fun arguments => do
  let g ← read "uniq" { letters := "cdiuz", valued := "fsw", names := [("count", 'c')] } arguments
  match ← contentOf (g.operands.headD "-") with
  | .error fault => stop 1 (plainComplaint "uniq" (g.operands.headD "-") fault)
  | .ok bytes =>
    let lower (line : Bytes) : Bytes := line.map fun b => if 65 ≤ b && b ≤ 90 then b + 32 else b
    let same (a b : Bytes) : Bool := if g.has 'i' then lower a = lower b else a = b
    let runs := runsOf same ((cutLines bytes).map withoutEnd)
    let shown := runs.filter fun (n, _) =>
      if g.has 'd' then n > 1 && !g.has 'u' else !g.has 'u' || n = 1
    let numbered (n : Nat) : Text :=
      if g.has 'c' then padLeft 7 (Text.ofNat n) ++ " " else []
    writeBytes (shown.flatMap fun (n, line) =>
      Utf8.encodeLossless (numbered n) ++ line ++ [10])
    pure 0

/-- Writes the lines of each operand from the last one to the first. -/
def tac : Utility := fun arguments => do
  let g ← read "tac" { letters := "br", valued := "s" } arguments
  let complaint (operand : Text) (fault : Disk.Fault) : Text :=
    "tac: failed to open " ++ named operand ++ " for reading: " ++ reasonText fault
  forInputs g.operands complaint fun _ bytes => writeBytes (cutLines bytes).reverse.flatten

/-- Writes the input to files and to the output. -/
def tee : Utility := fun arguments => do
  let g ← read "tee" { letters := "aip", names := [("append", 'a')] } arguments
  let bytes ← takeInput
  let mut status := 0
  for operand in g.operands do
    let s ← get
    let path := pathOf s operand
    let old : Bytes := if g.has 'a' then ((s.disk.read path).toOption.map (·.data)).getD [] else []
    match Device.at? path with
    | some (.stream n) => set (s.emit n bytes)
    | some _ => pure ()
    | none =>
      match s.disk.write path (.bytes (old ++ bytes)) with
      | .ok disk => set { s with disk }
      | .error fault =>
        complain (plainComplaint "tee" operand fault)
        status := 1
  writeBytes bytes
  pure status

/-- The ranges of positions that a list asks for, each with its first and its last position. -/
def ranges? (t : Text) : Option (List (Nat × Option Nat)) :=
  (Text.split (.char ',') t).mapM fun range =>
    match Text.cut (.char '-') range with
    | (first, none) => (natural? first).map fun n => (n, some n)
    | (first, some last) =>
      if first.isEmpty && last.isEmpty then none
      else do
        let first ← if first.isEmpty then some 1 else natural? first
        let last? ← if last.isEmpty then some none else (natural? last).map some
        pure (first, last?)

/-- The items at positions that are asked for. -/
def selected {α : Type} (ranges : List (Nat × Option Nat)) (items : List α) : List α :=
  let isAsked (n : Nat) : Bool := ranges.any fun (first, last?) =>
    first ≤ n && (last?.map fun last => decide (n ≤ last)).getD true
  (items.zipIdx 1).filterMap fun (item, n) => if isAsked n then some item else none

/-- The pieces of bytes between separators. -/
def pieces (separator : UInt8) : Bytes → List Bytes
  | [] => [[]]
  | b :: rest =>
    if b = separator then [] :: pieces separator rest
    else match pieces separator rest with
      | [] => [[b]]
      | piece :: more => (b :: piece) :: more

/-- Writes parts of lines. -/
def cut : Utility := fun arguments => do
  let g ← read "cut"
    { letters := "nsz", valued := "bcdfO"
      names := [("bytes", 'b'), ("characters", 'c'), ("delimiter", 'd'), ("fields", 'f'),
        ("only-delimited", 's'), ("output-delimiter", 'O')] } arguments
  let wrong (complaint : Text) : Action Nat := misuse "cut" {} complaint
  match g.options.filter fun (c, _) => c = 'b' || c = 'c' || c = 'f' with
  | [] => wrong "you must specify a list of bytes, characters, or fields"
  | _ :: _ :: _ => wrong "only one list may be specified"
  | [(kind, list)] =>
    let isFields := kind = 'f'
    let delimiter := Utf8.encodeLossless ((g.value? 'd').getD "\t")
    let separator := delimiter.headD 0
    if delimiter.length > 1 then return ← wrong "the delimiter must be a single character"
    match ranges? list with
    | none =>
      let what : Text := if isFields then "invalid field value " else
        "invalid byte/character position "
      wrong (what ++ named list)
    | some ranges =>
      if ranges.any fun (first, _) => first = 0 then
        return ← wrong (if isFields then "fields are numbered from 1"
          else "byte/character positions are numbered from 1")
      if ranges.any fun (first, last?) => (last?.map fun last => decide (last < first)).getD false then
        return ← wrong "invalid decreasing range"
      let joint := (g.value? 'O').map Utf8.encodeLossless
      let part (line : Bytes) : Option Bytes :=
        if !isFields then some (selected ranges line)
        else
          let fields := pieces separator line
          if fields.length < 2 then (if g.has 's' then none else some line)
          else some ((joint.getD [separator]).intercalate (selected ranges fields))
      forInputs g.operands (plainComplaint "cut") fun _ bytes =>
        writeBytes ((cutLines bytes).flatMap fun line =>
          ((part (withoutEnd line)).map (· ++ [10])).getD [])

end ProviderKit.Shell.Program
