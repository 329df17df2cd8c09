import HighLoad.ImageProcessor.Fabrics

/-!
# The command line

`Parser` takes the two paths and then reads options from the third argument on, with a cursor that every branch of
`Parse` moves over the operands it takes. `argv` are C strings; the first byte of an empty one is its NUL. `none` is a
read of `argv` at `argc` or later.

`parseArg_item` and `parseArg_cases` say what one pass of the loop does: an item that starts at the cursor, an
invocation or an unknown option, is taken whole, and where none starts the pass throws.
-/

namespace HighLoad.ImageProcessor

open ByteString

/-! ## The parser -/

def helpInfo : String :=
  "Well,\n" ++
  "1. -crop <int> <int> : crops the photo to height as the first parameter and to width\n" ++
  "as the second parameter.\n" ++
  "2. -gs : renders the photo to black and white.\n" ++
  "3. -neg : makes a negative of the photo.\n" ++
  "4. -sharp : improves a contrast of the photo.\n" ++
  "5. -edge <double> : highlights borders with using the \"sensibility\" as the parameter.\n" ++
  "6. -blur <double> : blurs the photo with using the \"sensibility\" as the parameter.\n" ++
  "7. -tunnel <int> <int> <double> <double> : rotate pixels around a pixel with coords\n" ++
  "as the first parameter for x and the second parameter for y with strength as the third\n" ++
  "parameter and radius as the fourth parameter. You can write 0 0 as first ans second\n" ++
  "parameter it will mean center of the photo." ++
  "!!!ATTENTION: USE ONLY NON-NEGATIVE NUMBERS!!!"

/-- What `std::filesystem` says of a path. -/
structure Paths where
  pathExists : Bytes → Bool
  isRegularFile : Bytes → Bool

structure Parser (F : Type) where
  inputPath : Bytes
  outputPath : Bytes
  filters : List (Filter F)

/-- How the constructor ends. -/
inductive Parsing (F : Type) where
  /-- `exit(0)` after this output. -/
  | exit (output : String)
  | threw (e : Exn)
  | parser (p : Parser F)

def pathCheck (paths : Paths) (s : Bytes) : Except Exn Unit :=
  if !paths.pathExists s then .error (.parser (ascii "This file doesn't exist."))
  else if !paths.isRegularFile s then .error (.parser (ascii "This path is bad"))
  else .ok ()

def unknownParameter (curArg : Nat) : Exn :=
  .parser (ascii "Unknown parameter as " ++ decimal curArg ++ ascii "'s argument")

section Parse

variable {F : Type} [Field F]

/-- A pass of the loop: the filter pushed, if any, and how far `cur_arg` moves before the last `++cur_arg`. -/
def parseArg (argv : List Bytes) (curArg : Nat) : Option (Except Exn (Option (Filter F) × Nat)) :=
  argv[curArg]?.bind fun word =>
    if word.head? ≠ some 45 then some (.error (unknownParameter curArg))
    else if word = ascii "-crop" then
      if argv.length ≤ curArg + 2 then some (.error (.parser (ascii "Expected 2 arguments for -crop.")))
      else argv[curArg + 1]?.bind fun width => argv[curArg + 2]?.bind fun height =>
        some ((CropFabric.make width height).map fun filter => (some filter, 2))
    else if word = ascii "-gs" then some (.ok (some GrayScaleFabric.make, 0))
    else if word = ascii "-neg" then some (.ok (some NegativeFabric.make, 0))
    else if word = ascii "-sharp" then some (.ok (some SharpFabric.make, 0))
    else if word = ascii "-edge" then
      if argv.length ≤ curArg + 1 then some (.error (.parser (ascii "Expected 1 arguments for -edge.\n")))
      else argv[curArg + 1]?.bind fun value =>
        some ((EdgeFabric.make value).map fun filter => (some filter, 1))
    else if word = ascii "-blur" then
      if argv.length ≤ curArg + 1 then some (.error (.parser (ascii "Expected 1 arguments for -blur.\n")))
      else argv[curArg + 1]?.bind fun value =>
        some ((BlurFabric.make value).map fun filter => (some filter, 1))
    else if word = ascii "-tunnel" then
      if argv.length ≤ curArg + 4 then some (.error (.parser (ascii "Expected 4 arguments for -tunnel.\n")))
      else argv[curArg + 1]?.bind fun pixelH => argv[curArg + 2]?.bind fun pixelW =>
        argv[curArg + 3]?.bind fun strongth => argv[curArg + 4]?.bind fun radius =>
          some ((TunnelFabric.make pixelH pixelW strongth radius).map fun filter => (some filter, 4))
    else some (.ok (none, 0))

/-- `while (cur_arg < argc_)`, with the filters pushed so far. -/
def parseLoop (argv : List Bytes) (curArg : Nat) (filters : List (Filter F)) :
    Option (Except Exn (List (Filter F))) :=
  if curArg < argv.length then
    match parseArg argv curArg with
    | none => none
    | some (.error e) => some (.error e)
    | some (.ok (filter, moved)) => parseLoop argv (curArg + moved + 1) (filters ++ filter.toList)
  else some (.ok filters)
termination_by argv.length - curArg

def parse (paths : Paths) (argv : List Bytes) : Option (Parsing F) :=
  if argv.length = 1 then some (.exit helpInfo)
  else if argv.length < 3 then
    some (.threw (.parser (ascii "Expected 2 or more arguments for this app.\n")))
  else argv[1]?.bind fun inputPath => argv[2]?.bind fun outputPath =>
    match pathCheck paths inputPath with
    | .error e => some (.threw e)
    | .ok () => (parseLoop argv 3 []).map fun
      | .ok filters => .parser ⟨inputPath, outputPath, filters⟩
      | .error e => .threw e

end Parse

/-! ## Invocations -/

/-- An option with its operands. -/
inductive Invocation where
  | crop (width height : Bytes)
  | gs
  | neg
  | sharp
  | edge (value : Bytes)
  | blur (value : Bytes)
  | tunnel (pixelH pixelW strongth radius : Bytes)
  deriving DecidableEq

namespace Invocation

/-- The option word. -/
def option : Invocation → Bytes
  | crop .. => ascii "-crop"
  | gs => ascii "-gs"
  | neg => ascii "-neg"
  | sharp => ascii "-sharp"
  | edge _ => ascii "-edge"
  | blur _ => ascii "-blur"
  | tunnel .. => ascii "-tunnel"

def operands : Invocation → List Bytes
  | crop width height => [width, height]
  | gs | neg | sharp => []
  | edge value | blur value => [value]
  | tunnel pixelH pixelW strongth radius => [pixelH, pixelW, strongth, radius]

/-- The filter that the option's fabric makes of the operands. -/
def make {F : Type} [Field F] : Invocation → Except Exn (Filter F)
  | crop width height => CropFabric.make width height
  | gs => .ok GrayScaleFabric.make
  | neg => .ok NegativeFabric.make
  | sharp => .ok SharpFabric.make
  | edge value => EdgeFabric.make value
  | blur value => BlurFabric.make value
  | tunnel pixelH pixelW strongth radius => TunnelFabric.make pixelH pixelW strongth radius

def words (i : Invocation) : List Bytes := i.option :: i.operands

end Invocation

/-- The option words. -/
def options : List Bytes :=
  [ascii "-crop", ascii "-gs", ascii "-neg", ascii "-sharp", ascii "-edge", ascii "-blur", ascii "-tunnel"]

/-- A word that begins with a dash and is no option. -/
def UnknownOption (word : Bytes) : Prop := word.head? = some 45 ∧ word ∉ options

/-- What one pass of the loop takes. -/
inductive Item where
  | known (i : Invocation)
  | unknown (word : Bytes) (h : UnknownOption word)

namespace Item

def words : Item → List Bytes
  | known i => i.words
  | unknown word _ => [word]

/-- How far the pass moves before the last `++cur_arg`. -/
def moved : Item → Nat
  | known i => i.operands.length
  | unknown .. => 0

/-- What the pass pushes: nothing for an unknown option. -/
def make {F : Type} [Field F] : Item → Except Exn (Option (Filter F))
  | known i => i.make.map some
  | unknown .. => .ok none

theorem length_words (item : Item) : item.words.length = item.moved + 1 := by
  cases item with
  | known i => rfl
  | unknown => rfl

end Item

/-! ## One pass of the loop -/

section Pass

variable {F : Type} [Field F] {argv : List Bytes} {curArg : Nat} {item : Item} {rest : List Bytes}

/-- Words at the cursor are the words of `argv` from there. -/
theorem getElem?_cursor {ws : List Bytes} (h : argv.drop curArg = ws) (i : Nat) : argv[curArg + i]? = ws[i]? := by
  rw [← h, List.getElem?_drop]

theorem length_cursor {ws : List Bytes} (h : argv.drop curArg = ws) (hne : ws ≠ []) :
    argv.length = curArg + ws.length := by
  have hlen : ws.length = argv.length - curArg := by rw [← h, List.length_drop]
  have hpos := List.length_pos_of_ne_nil hne
  omega

omit [Field F] in
theorem map_some_map (made : Except Exn (Filter F)) (n : Nat) :
    made.map (fun filter => (some filter, n)) = (made.map some).map fun filter => (filter, n) := by
  cases made <;> rfl

/-- **An item that starts at the cursor is taken whole.** -/
theorem parseArg_item (h : argv.drop curArg = item.words ++ rest) :
    parseArg (F := F) argv curArg = some (item.make.map fun filter => (filter, item.moved)) := by
  have hget := getElem?_cursor h
  have hlen := length_cursor h (by cases item <;> simp [Item.words, Invocation.words])
  have h0 := hget 0
  rw [Nat.add_zero] at h0
  unfold parseArg
  rw [h0]
  cases item with
  | unknown word hw =>
    obtain ⟨hdash, hno⟩ := hw
    simp only [options, List.mem_cons, not_or] at hno
    obtain ⟨h₁, h₂, h₃, h₄, h₅, h₆, h₇, -⟩ := hno
    simp [Item.words, Item.make, Item.moved, Except.map, hdash, h₁, h₂, h₃, h₄, h₅, h₆, h₇]
  | known i =>
    simp only [Item.words, Invocation.words, List.cons_append, List.length_cons] at hget hlen
    rw [Item.words, Invocation.words, List.cons_append, List.getElem?_cons_zero, Option.bind_some]
    cases i with
    | crop width height =>
      have hlt : ¬argv.length ≤ curArg + 2 := by simp [hlen, Invocation.operands]
      simp +decide only [Invocation.option, ite_true, ite_false, hlt]
      rw [hget 1, hget 2]
      exact congrArg some (map_some_map _ _)
    | gs => simp +decide only [ite_true, ite_false]; rfl
    | neg => simp +decide only [ite_true, ite_false]; rfl
    | sharp => simp +decide only [ite_true, ite_false]; rfl
    | edge value =>
      have hlt : ¬argv.length ≤ curArg + 1 := by simp [hlen, Invocation.operands]
      simp +decide only [Invocation.option, ite_true, ite_false, hlt]
      rw [hget 1]
      exact congrArg some (map_some_map _ _)
    | blur value =>
      have hlt : ¬argv.length ≤ curArg + 1 := by simp [hlen, Invocation.operands]
      simp +decide only [Invocation.option, ite_true, ite_false, hlt]
      rw [hget 1]
      exact congrArg some (map_some_map _ _)
    | tunnel pixelH pixelW strongth radius =>
      have hlt : ¬argv.length ≤ curArg + 4 := by simp [hlen, Invocation.operands]
      simp +decide only [Invocation.option, ite_true, ite_false, hlt]
      rw [hget 1, hget 2, hget 3, hget 4]
      exact congrArg some (map_some_map _ _)

/-- An option with fewer words after it than it has operands throws; the operands of `i` do not matter. -/
theorem parseArg_short (F : Type) [Field F] (i : Invocation) (hword : argv[curArg]? = some i.option)
    (hshort : argv.length ≤ curArg + i.operands.length) :
    ∃ m, parseArg (F := F) argv curArg = some (.error (.parser m)) := by
  obtain ⟨hlt, -⟩ := List.getElem?_eq_some_iff.mp hword
  unfold parseArg
  rw [hword, Option.bind_some]
  cases i with
  | gs | neg | sharp => exact absurd hshort (Nat.not_le.mpr hlt)
  | crop | edge | blur | tunnel =>
    exact ⟨_, by simp +decide only [Invocation.option, ite_true, ite_false]; exact if_pos hshort⟩

/-- Where no item starts, the pass throws. -/
theorem parseArg_cases (F : Type) [Field F] (h : curArg < argv.length) :
    (∃ (item : Item) (rest : List Bytes), argv.drop curArg = item.words ++ rest) ∨
      ∃ m, parseArg (F := F) argv curArg = some (.error (.parser m)) := by
  obtain ⟨word, tail, hd⟩ : ∃ word tail, argv.drop curArg = word :: tail :=
    List.exists_cons_of_ne_nil (by rw [ne_eq, List.drop_eq_nil_iff]; omega)
  have hword : argv[curArg]? = some word := getElem?_cursor hd 0
  have hlen := length_cursor hd (List.cons_ne_nil _ _)
  by_cases hdash : word.head? = some 45
  · by_cases hopt : word ∈ options
    · simp only [options, List.mem_cons, List.not_mem_nil, or_false] at hopt
      rcases hopt with rfl | rfl | rfl | rfl | rfl | rfl | rfl
      · rcases tail with _ | ⟨width, _ | ⟨height, rest⟩⟩
        iterate 2 exact .inr (parseArg_short F (.crop [] []) hword (by simp [hlen, Invocation.operands]))
        exact .inl ⟨.known (.crop width height), rest, hd⟩
      · exact .inl ⟨.known .gs, tail, hd⟩
      · exact .inl ⟨.known .neg, tail, hd⟩
      · exact .inl ⟨.known .sharp, tail, hd⟩
      · rcases tail with _ | ⟨value, rest⟩
        · exact .inr (parseArg_short F (.edge []) hword (by simp [hlen, Invocation.operands]))
        · exact .inl ⟨.known (.edge value), rest, hd⟩
      · rcases tail with _ | ⟨value, rest⟩
        · exact .inr (parseArg_short F (.blur []) hword (by simp [hlen, Invocation.operands]))
        · exact .inl ⟨.known (.blur value), rest, hd⟩
      · rcases tail with _ | ⟨pixelH, _ | ⟨pixelW, _ | ⟨strongth, _ | ⟨radius, rest⟩⟩⟩⟩
        iterate 4 exact .inr (parseArg_short F (.tunnel [] [] [] []) hword (by simp [hlen, Invocation.operands]))
        exact .inl ⟨.known (.tunnel pixelH pixelW strongth radius), rest, hd⟩
    · exact .inl ⟨.unknown word ⟨hdash, hopt⟩, tail, hd⟩
  · exact .inr ⟨_, by rw [parseArg, hword, Option.bind_some, if_pos hdash, unknownParameter]⟩

end Pass

end HighLoad.ImageProcessor
