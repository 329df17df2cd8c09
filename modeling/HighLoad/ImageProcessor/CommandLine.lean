import HighLoad.ImageProcessor.Parser

/-!
# The language of the command line

The loop of `Parse` accepts exactly the sequences of items whose fabrics accept their operands, and pushes the filters
of the invocations among them (`parseLoop_sound`, `parseLoop_complete`); otherwise it throws a `ParserException`
(`parseLoop_total`). A sequence of items is read in one way only (`items_injective`), so a command line is accepted
without being a sequence of invocations exactly when an unknown option stands in it (`commandLine_sound_iff`).
-/

namespace HighLoad.ImageProcessor

open ByteString

variable {F : Type} [Field F] {paths : Paths} {argv : List Bytes} {curArg : Nat}

/-! ## What the constructor promises -/

/-- A parser that was built read complete invocations, one for each filter and in the same order; arguments that are no
sequence of complete invocations make the constructor throw. -/
def CommandLineSound (F : Type) [Field F] (paths : Paths) (argv : List Bytes) : Prop :=
  (∀ p : Parser F, parse paths argv = some (.parser p) →
    ∃ invocations : List Invocation, argv.drop 3 = invocations.flatMap Invocation.words ∧
      invocations.map Invocation.make = p.filters.map Except.ok) ∧
  ((∀ invocations : List Invocation, argv.drop 3 ≠ invocations.flatMap Invocation.words) →
    ∃ m, parse (F := F) paths argv = some (.threw (.parser m)))

/-- The arguments are unknown options, at least one, and complete invocations that their fabrics accept. -/
def SkipsOption (F : Type) [Field F] (argv : List Bytes) : Prop :=
  ∃ items : List Item, argv.drop 3 = items.flatMap Item.words ∧
    (∀ item ∈ items, ∃ filter : Option (Filter F), item.make = .ok filter) ∧
      ∃ word h, Item.unknown word h ∈ items

/-! ## One reading -/

theorem Invocation.option_mem (i : Invocation) : i.option ∈ options := by
  cases i <;> simp [Invocation.option, options]

/-- The option word says how many operands follow. -/
theorem Invocation.words_append_inj {i j : Invocation} {r s : List Bytes} (h : i.words ++ r = j.words ++ s) :
    i = j ∧ r = s := by
  obtain ⟨hopt, hrest⟩ : i.option = j.option ∧ i.operands ++ r = j.operands ++ s := List.cons.inj h
  cases i <;> cases j <;> simp +decide [Invocation.option] at hopt <;> simp_all [Invocation.operands]

theorem Item.words_append_inj {a b : Item} {r s : List Bytes} (h : a.words ++ r = b.words ++ s) : a = b ∧ r = s := by
  cases a with
  | known i =>
    cases b with
    | known j =>
      obtain ⟨rfl, hrest⟩ := Invocation.words_append_inj h
      exact ⟨rfl, hrest⟩
    | unknown word hw => exact absurd ((List.cons.inj h).1 ▸ i.option_mem) hw.2
  | unknown word hw =>
    cases b with
    | known j => exact absurd ((List.cons.inj h).1 ▸ j.option_mem) hw.2
    | unknown word' hw' =>
      obtain ⟨rfl, hrest⟩ := List.cons.inj h
      exact ⟨rfl, hrest⟩

/-- **A sequence of items is read in one way.** -/
theorem items_injective {as bs : List Item} (h : as.flatMap Item.words = bs.flatMap Item.words) : as = bs := by
  induction as generalizing bs with
  | nil =>
    cases bs with
    | nil => rfl
    | cons b bs =>
      have hlen := congrArg List.length h
      simp [b.length_words] at hlen
      omega
  | cons a as ih =>
    cases bs with
    | nil =>
      have hlen := congrArg List.length h
      simp [a.length_words] at hlen
    | cons b bs =>
      simp only [List.flatMap_cons] at h
      obtain ⟨rfl, hrest⟩ := Item.words_append_inj h
      rw [ih hrest]

/-! ## The loop -/

theorem Invocation.make_onlyParser (i : Invocation) : OnlyParser (i.make : Except Exn (Filter F)) := by
  cases i with
  | gs | neg | sharp => exact .ok _
  | crop width height =>
    exact (isInteger_onlyParser _).bind ((isNotNull_onlyParser _).bind ((isInteger_onlyParser _).bind
      ((isNotNull_onlyParser _).bind (.ok _))))
  | edge value => exact (isFloat_onlyParser _).bind (.ok _)
  | blur value => exact (isFloat_onlyParser _).bind (.ok _)
  | tunnel pixelH pixelW strongth radius =>
    exact (isInteger_onlyParser _).bind ((isInteger_onlyParser _).bind ((isFloat_onlyParser _).bind
      ((isFloat_onlyParser _).bind (.ok _))))

theorem Item.make_onlyParser (item : Item) : OnlyParser (item.make : Except Exn (Option (Filter F))) := by
  cases item with
  | known i => exact i.make_onlyParser.map _
  | unknown => exact .ok _

/-- After an item the cursor stands on the words that follow it. -/
theorem drop_item {item : Item} {rest : List Bytes} (h : argv.drop curArg = item.words ++ rest) :
    argv.drop (curArg + item.moved + 1) = rest := by
  rw [Nat.add_assoc, ← item.length_words, ← List.drop_drop, h, List.drop_left]

/-- The loop terminates inside `argv`, with the filters or a `ParserException`. -/
theorem parseLoop_total (argv : List Bytes) (curArg : Nat) (filters : List (Filter F)) :
    ∃ r, parseLoop argv curArg filters = some r ∧ OnlyParser r := by
  fun_induction parseLoop argv curArg filters with
  | case1 curArg filters h hnone =>
    rcases parseArg_cases F h with ⟨item, rest, hd⟩ | ⟨m, hm⟩
    · rw [parseArg_item hd] at hnone; cases hnone
    · rw [hm] at hnone; cases hnone
  | case2 curArg filters h e herr =>
    refine ⟨_, rfl, ?_⟩
    rcases parseArg_cases F h with ⟨item, rest, hd⟩ | ⟨m, hm⟩
    · rw [parseArg_item hd] at herr
      have hmake := item.make_onlyParser (F := F).map fun filter => (filter, item.moved)
      rw [Option.some.inj herr] at hmake
      obtain ⟨m, rfl⟩ := hmake e rfl
      exact .parser m
    · rw [hm] at herr
      cases herr
      exact .parser m
  | case3 curArg filters h filter moved hok ih => exact ih
  | case4 curArg filters h => exact ⟨_, rfl, .ok _⟩

/-- What the loop accepts are items that their fabrics accept. -/
theorem parseLoop_sound {filters fs : List (Filter F)} (h : parseLoop argv curArg filters = some (.ok fs)) :
    ∃ (items : List Item) (made : List (Option (Filter F))), argv.drop curArg = items.flatMap Item.words ∧
      items.map Item.make = made.map Except.ok ∧ fs = filters ++ made.flatMap Option.toList := by
  fun_induction parseLoop argv curArg filters with
  | case1 => cases h
  | case2 => cases h
  | case3 curArg filters hlt filter moved hok ih =>
    rcases parseArg_cases F hlt with ⟨item, rest, hd⟩ | ⟨m, hm⟩
    · rw [parseArg_item hd] at hok
      cases hmake : (item.make : Except Exn (Option (Filter F))) with
      | error e => rw [hmake] at hok; cases hok
      | ok filter' =>
        rw [hmake] at hok
        obtain ⟨rfl, rfl⟩ : filter' = filter ∧ item.moved = moved := by simpa [Except.map] using hok
        obtain ⟨items, made, hitems, hmade, rfl⟩ := ih h
        refine ⟨item :: items, filter' :: made, ?_, by simp [hmake, hmade], by simp⟩
        rw [List.flatMap_cons, ← hitems, drop_item hd, hd]
    · rw [hm] at hok; cases hok
  | case4 curArg filters hge =>
    cases h
    exact ⟨[], [], List.drop_eq_nil_iff.mpr (Nat.not_lt.mp hge), rfl, by simp⟩

/-- Items that their fabrics accept are read to their end. -/
theorem parseLoop_complete : ∀ {items : List Item} {made : List (Option (Filter F))} {curArg : Nat}
    {filters : List (Filter F)}, argv.drop curArg = items.flatMap Item.words →
    items.map Item.make = made.map Except.ok →
    parseLoop argv curArg filters = some (.ok (filters ++ made.flatMap Option.toList))
  | [], made, curArg, filters, hd, hmade => by
    obtain rfl : made = [] := by simpa using hmade
    have hge : ¬curArg < argv.length := Nat.not_lt.mpr (List.drop_eq_nil_iff.mp hd)
    rw [parseLoop, if_neg hge, List.flatMap_nil, List.append_nil]
  | item :: items, [], _, _, _, hmade => by simp at hmade
  | item :: items, filter :: made, curArg, filters, hd, hmade => by
    obtain ⟨hmake, hmade⟩ := List.cons.inj hmade
    rw [List.flatMap_cons] at hd
    have hlen := length_cursor hd (by cases item <;> simp [Item.words, Invocation.words])
    have hlt : curArg < argv.length := by
      rw [hlen, List.length_append, item.length_words]
      omega
    rw [parseLoop, if_pos hlt, parseArg_item hd, hmake]
    simp only [Except.map]
    rw [parseLoop_complete (drop_item hd) hmade]
    simp

/-! ## The constructor -/

/-- With the paths there and the input checked, the constructor ends as the loop does. -/
theorem parse_loop {inputPath : Bytes} (hargc : 3 ≤ argv.length) (hin : argv[1]? = some inputPath)
    (hpath : pathCheck paths inputPath = .ok ()) :
    ∃ outputPath, argv[2]? = some outputPath ∧
      (∀ filters : List (Filter F), parseLoop argv 3 [] = some (.ok filters) →
        parse paths argv = some (.parser ⟨inputPath, outputPath, filters⟩)) ∧
      ∀ e, parseLoop (F := F) argv 3 [] = some (.error e) → parse (F := F) paths argv = some (.threw e) := by
  have h₁ : argv.length ≠ 1 := by omega
  have h₂ : ¬argv.length < 3 := by omega
  have hout : argv[2]? = some argv[2] := List.getElem?_eq_getElem hargc
  refine ⟨argv[2], hout, fun filters h => ?_, fun e h => ?_⟩
  · simp [parse, h₁, h₂, hin, hout, hpath, h]
  · simp [parse, h₁, h₂, hin, hout, hpath, h]

/-- **The constructor always ends.** -/
theorem parse_total (F : Type) [Field F] (paths : Paths) (argv : List Bytes) :
    ∃ r : Parsing F, parse paths argv = some r := by
  by_cases h₁ : argv.length = 1
  · exact ⟨_, if_pos h₁⟩
  by_cases h₂ : argv.length < 3
  · exact ⟨_, by rw [parse, if_neg h₁, if_pos h₂]⟩
  have hargc : 3 ≤ argv.length := Nat.not_lt.mp h₂
  have hin : argv[1]? = some argv[1] := List.getElem?_eq_getElem (by omega)
  have hout : argv[2]? = some argv[2] := List.getElem?_eq_getElem hargc
  cases hpath : pathCheck paths argv[1] with
  | error e => exact ⟨.threw e, by simp [parse, h₁, h₂, hin, hout, hpath]⟩
  | ok _ =>
    obtain ⟨outputPath, -, hok, herr⟩ := parse_loop (F := F) hargc hin hpath
    obtain ⟨r, hr, -⟩ := parseLoop_total (F := F) argv 3 []
    cases r with
    | error e => exact ⟨_, herr e hr⟩
    | ok filters => exact ⟨_, hok filters hr⟩

/-- The invocations among items without an unknown option. -/
theorem items_known {items : List Item} (h : ∀ word hw, Item.unknown word hw ∉ items) :
    ∃ invocations : List Invocation, items = invocations.map Item.known := by
  induction items with
  | nil => exact ⟨[], rfl⟩
  | cons item items ih =>
    obtain ⟨invocations, rfl⟩ := ih fun word hw hmem => h word hw (List.mem_cons_of_mem _ hmem)
    cases item with
    | known i => exact ⟨i :: invocations, rfl⟩
    | unknown word hw => exact absurd List.mem_cons_self (h word hw)

theorem flatMap_known (invocations : List Invocation) :
    (invocations.map Item.known).flatMap Item.words = invocations.flatMap Invocation.words := by
  rw [List.flatMap_map]
  rfl

/-- Invocations push the filters that their fabrics make, and these only. -/
theorem map_known {invocations : List Invocation} {made : List (Option (Filter F))}
    (h : (invocations.map Item.known).map Item.make = made.map Except.ok) :
    invocations.map Invocation.make = (made.flatMap Option.toList).map Except.ok := by
  induction invocations generalizing made with
  | nil =>
    obtain rfl : made = [] := by simpa using h
    rfl
  | cons i invocations ih =>
    cases made with
    | nil => cases h
    | cons filter made =>
      obtain ⟨hi, h⟩ := List.cons.inj h
      have ih := ih h
      cases hmake : (i.make : Except Exn (Filter F)) with
      | error e =>
        rw [Item.make, hmake] at hi
        cases hi
      | ok f =>
        rw [Item.make, hmake] at hi
        cases hi
        simp [hmake, ih]

theorem made_known {invocations : List Invocation} {filters : List (Filter F)}
    (h : invocations.map Invocation.make = filters.map Except.ok) :
    (invocations.map Item.known).map Item.make = (filters.map some).map Except.ok :=
  calc (invocations.map Item.known).map Item.make
      = (invocations.map Invocation.make).map (Except.map some) := by rw [List.map_map, List.map_map]; rfl
    _ = (filters.map Except.ok).map (Except.map some) := by rw [h]
    _ = (filters.map some).map Except.ok := by rw [List.map_map, List.map_map]; rfl

/-- Items that are accepted one by one. -/
theorem exists_made {items : List Item}
    (h : ∀ item ∈ items, ∃ filter : Option (Filter F), item.make = .ok filter) :
    ∃ made : List (Option (Filter F)), items.map Item.make = made.map Except.ok := by
  induction items with
  | nil => exact ⟨[], rfl⟩
  | cons item items ih =>
    obtain ⟨filter, hfilter⟩ := h item List.mem_cons_self
    obtain ⟨made, hmade⟩ := ih fun item' hitem => h item' (List.mem_cons_of_mem _ hitem)
    exact ⟨filter :: made, by rw [List.map_cons, List.map_cons, hfilter, hmade]⟩

/-- What a parser was built of. -/
theorem parse_sound {p : Parser F} (hargc : 3 ≤ argv.length) {inputPath : Bytes} (hin : argv[1]? = some inputPath)
    (hpath : pathCheck paths inputPath = .ok ()) (h : parse paths argv = some (.parser p)) :
    ∃ (items : List Item) (made : List (Option (Filter F))), argv.drop 3 = items.flatMap Item.words ∧
      items.map Item.make = made.map Except.ok ∧ p.filters = made.flatMap Option.toList := by
  obtain ⟨outputPath, -, hok, herr⟩ := parse_loop (F := F) hargc hin hpath
  obtain ⟨r, hr, -⟩ := parseLoop_total (F := F) argv 3 []
  cases r with
  | error e => rw [herr e hr] at h; cases h
  | ok filters =>
    rw [hok filters hr] at h
    cases h
    exact parseLoop_sound hr

/-- **When the command line is sound.** With the input path checked, the constructor accepts sequences of complete
invocations only, and throws a `ParserException` otherwise, if and only if the arguments are not accepted invocations
mixed with at least one unknown option. -/
theorem commandLine_sound_iff (F : Type) [Field F] {paths : Paths} {argv : List Bytes} {inputPath : Bytes}
    (hargc : 3 ≤ argv.length) (hin : argv[1]? = some inputPath) (hpath : pathCheck paths inputPath = .ok ()) :
    CommandLineSound F paths argv ↔ ¬SkipsOption F argv := by
  obtain ⟨outputPath, -, hok, herr⟩ := parse_loop (F := F) hargc hin hpath
  constructor
  · rintro ⟨hsound, -⟩ ⟨items, hitems, haccept, word, hw, hmem⟩
    -- The loop reads to the end, so the items would be invocations.
    obtain ⟨made, hmade⟩ := exists_made haccept
    obtain ⟨invocations, hinv, -⟩ := hsound _ (hok _ (parseLoop_complete hitems hmade))
    rw [hitems, ← flatMap_known] at hinv
    rw [items_injective hinv] at hmem
    obtain ⟨i, -, hi⟩ := List.mem_map.mp hmem
    cases hi
  · intro hskip
    have hsound : ∀ p : Parser F, parse paths argv = some (.parser p) →
        ∃ invocations : List Invocation, argv.drop 3 = invocations.flatMap Invocation.words ∧
          invocations.map Invocation.make = p.filters.map Except.ok := by
      intro p hp
      obtain ⟨items, made, hitems, hmade, hfilters⟩ := parse_sound hargc hin hpath hp
      have hknown : ∀ word h, Item.unknown word h ∉ items := by
        intro word hw hmem
        refine hskip ⟨items, hitems, fun item hitem => ?_, word, hw, hmem⟩
        have hmap : item.make ∈ made.map Except.ok := by
          rw [← hmade]
          exact List.mem_map_of_mem hitem
        obtain ⟨filter, -, hfilter⟩ := List.mem_map.mp hmap
        exact ⟨filter, hfilter.symm⟩
      obtain ⟨invocations, rfl⟩ := items_known hknown
      rw [hfilters]
      exact ⟨invocations, by rw [hitems, flatMap_known], map_known hmade⟩
    refine ⟨hsound, fun hno => ?_⟩
    obtain ⟨r, hr, honly⟩ := parseLoop_total (F := F) argv 3 []
    cases r with
    | error e =>
      obtain ⟨m, rfl⟩ := honly e rfl
      exact ⟨m, herr _ hr⟩
    | ok filters =>
      obtain ⟨invocations, hinv, -⟩ := hsound _ (hok filters hr)
      exact absurd hinv (hno invocations)

/-- **The command line is complete and safe.** With the input path checked, the constructor ends without a read outside
`argv`, with a parser or a `ParserException`; and a sequence of invocations that their fabrics accept gives exactly the
filters that these make, in order. -/
theorem commandLine_complete (F : Type) [Field F] {paths : Paths} {argv : List Bytes} {inputPath : Bytes}
    (hargc : 3 ≤ argv.length) (hin : argv[1]? = some inputPath) (hpath : pathCheck paths inputPath = .ok ()) :
    (∃ ending : Parsing F, parse paths argv = some ending ∧
      ((∃ p, ending = .parser p) ∨ ∃ m, ending = .threw (.parser m))) ∧
    ∀ (invocations : List Invocation) (filters : List (Filter F)),
      argv.drop 3 = invocations.flatMap Invocation.words → invocations.map Invocation.make = filters.map Except.ok →
        ∃ outputPath, argv[2]? = some outputPath ∧
          parse paths argv = some (.parser ⟨inputPath, outputPath, filters⟩) := by
  obtain ⟨outputPath, hout, hok, herr⟩ := parse_loop (F := F) hargc hin hpath
  refine ⟨?_, fun invocations filters hwords hmake => ⟨outputPath, hout, hok _ ?_⟩⟩
  · obtain ⟨r, hr, honly⟩ := parseLoop_total (F := F) argv 3 []
    cases r with
    | ok filters => exact ⟨_, hok filters hr, .inl ⟨_, rfl⟩⟩
    | error e =>
      obtain ⟨m, rfl⟩ := honly e rfl
      exact ⟨_, herr _ hr, .inr ⟨m, rfl⟩⟩
  · have hitems : argv.drop 3 = (invocations.map Item.known).flatMap Item.words := by rw [hwords, flatMap_known]
    rw [parseLoop_complete hitems (made_known hmake), List.nil_append, List.flatMap_map]
    simp [List.flatMap_singleton']

/-! ## Three command lines -/

/-- Every path is a regular file. -/
def allFiles : Paths := ⟨fun _ => true, fun _ => true⟩

def paintCommand (arguments : List Bytes) : List Bytes :=
  [ascii "image_processor", ascii "in.bmp", ascii "out.bmp"] ++ arguments

/-- `-grey` for `-gs` is ignored. -/
theorem greyCommand_unsound : ¬CommandLineSound ℚ allFiles (paintCommand [ascii "-grey"]) := by
  rintro ⟨hsound, -⟩
  have hgrey : UnknownOption (ascii "-grey") := ⟨by decide, by decide⟩
  have hitems : (paintCommand [ascii "-grey"]).drop 3 = [Item.unknown _ hgrey].flatMap Item.words := rfl
  have hmade : [Item.unknown _ hgrey].map Item.make = [(none : Option (Filter ℚ))].map Except.ok := rfl
  have hargc : 3 ≤ (paintCommand [ascii "-grey"]).length := by decide
  have hpath : pathCheck allFiles (ascii "in.bmp") = .ok () := rfl
  obtain ⟨outputPath, -, hok, -⟩ := parse_loop (F := ℚ) hargc rfl hpath
  have hparse := hok _ (parseLoop_complete hitems hmade)
  obtain ⟨invocations, hwords, -⟩ := hsound _ hparse
  cases invocations with
  | nil => cases hwords
  | cons i invocations =>
    rw [List.flatMap_cons] at hwords
    have hopt := (List.cons.inj hwords).1
    exact hgrey.2 (hopt ▸ i.option_mem)

theorem cropCommand_sound : ∃ argv, argv = paintCommand [ascii "-crop", ascii "2", ascii "3", ascii "-gs"] ∧
    CommandLineSound ℚ allFiles argv := by
  refine ⟨_, rfl, (commandLine_sound_iff ℚ (by decide) rfl rfl).mpr ?_⟩
  rintro ⟨items, hitems, -, word, hw, hmem⟩
  have hread : items = [.known (.crop (ascii "2") (ascii "3")), .known .gs] := items_injective (hitems.symm.trans rfl)
  rw [hread] at hmem
  simp at hmem

theorem cropCommand_complete :
    ∃ p : Parser ℚ, parse allFiles (paintCommand [ascii "-crop", ascii "2", ascii "3", ascii "-gs"]) =
        some (.parser p) ∧ p.filters = [.crop 2 3, .grayscale] := by
  have hargc : 3 ≤ (paintCommand [ascii "-crop", ascii "2", ascii "3", ascii "-gs"]).length := by decide
  have hpath : pathCheck allFiles (ascii "in.bmp") = .ok () := rfl
  obtain ⟨outputPath, -, hparse⟩ := (commandLine_complete ℚ hargc rfl hpath).2
    [.crop (ascii "2") (ascii "3"), .gs] [.crop 2 3, .grayscale] rfl rfl
  exact ⟨_, hparse, rfl⟩

end HighLoad.ImageProcessor
