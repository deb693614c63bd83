import Mathlib.Data.Finset.Card
import Mathlib.Algebra.BigOperators.Group.Finset.Basic
import Mathlib.Order.Interval.Finset.Nat
import ChaoOS.FrameTableRuns
import ChaoOS.FrameTableGrants
import ChaoOS.PrintfRendering

/-!
# The report on the free blocks

`print_free_buddy_blocks` of `kernel/pmm.c` walks the eleven free lists, prints the
heads it meets and adds up the sizes of their blocks. Free and allocated blocks tile
the pool, so that the total it prints is what the clients have left of it.
-/

namespace ChaoOS.FreeReport

open ChaoOS.KernelMath ChaoOS.IndexList ChaoOS.DyadicTiling ChaoOS.BuddyLayout
open ChaoOS.GuardedRun ChaoOS.FrameTableModel ChaoOS.FrameTableBlocks ChaoOS.FrameTableAlloc
open ChaoOS.FrameTableFree ChaoOS.FrameTableInit ChaoOS.FrameTableRuns ChaoOS.FrameTableGrants
open ChaoOS.NumberText ChaoOS.PrintfModel ChaoOS.PrintfRendering

set_option autoImplicit false

/-! ## The pages of a tiling -/

/-- The pages of the blocks on a list. -/
def pagesOf (blocks : List (Nat × Nat)) : Nat := (blocks.map fun block => 2 ^ block.2).sum

theorem pages_of_append (left right : List (Nat × Nat)) :
    pagesOf (left ++ right) = pagesOf left + pagesOf right := by
  rw [pagesOf, List.map_append, List.sum_append, pagesOf, pagesOf]

/-- The tiles of a segment, listed once each, have as many pages as the segment. -/
theorem tiling_pages {size : Nat} {tile : Nat → Nat → Prop} (tiling : Tiling size tile)
    {tiles : List (Nat × Nat)} (distinct : tiles.Nodup)
    (exact : ∀ index level, (index, level) ∈ tiles ↔ tile index level) : pagesOf tiles = size := by
  have covered : Finset.range size =
      tiles.toFinset.biUnion fun block => Finset.Ico block.1 (block.1 + 2 ^ block.2) := by
    ext page
    simp only [Finset.mem_range, Finset.mem_biUnion, List.mem_toFinset, Finset.mem_Ico]
    constructor
    · intro inside
      obtain ⟨index, level, member, within⟩ := tiling.covers inside
      exact ⟨(index, level), (exact index level).mpr member, within⟩
    · rintro ⟨block, listed, within⟩
      have inside := tiling.inside ((exact block.1 block.2).mp listed)
      omega
  have disjoint : ∀ left ∈ tiles.toFinset, ∀ right ∈ tiles.toFinset, left ≠ right →
      Disjoint (Finset.Ico left.1 (left.1 + 2 ^ left.2))
        (Finset.Ico right.1 (right.1 + 2 ^ right.2)) := by
    intro left leftListed right rightListed different
    rw [List.mem_toFinset] at leftListed rightListed
    rw [Finset.disjoint_left]
    intro page inLeft inRight
    rw [Finset.mem_Ico] at inLeft inRight
    apply different
    obtain ⟨index, level⟩ := tiling.same_of_page ((exact left.1 left.2).mp leftListed)
      ((exact right.1 right.2).mp rightListed) inLeft inRight
    exact Prod.ext index level
  calc pagesOf tiles = ∑ block ∈ tiles.toFinset, 2 ^ block.2 := (List.sum_toFinset _ distinct).symm
    _ = ∑ block ∈ tiles.toFinset, (Finset.Ico block.1 (block.1 + 2 ^ block.2)).card := by
        simp only [Nat.card_Ico, Nat.add_sub_cancel_left]
    _ = (Finset.range size).card := by rw [covered, Finset.card_biUnion disjoint]
    _ = size := Finset.card_range size

/-! ## The function -/

/-- The text printed so far, with what every call of `printf` finds: the formatting
variables, and on the stack whatever is there. -/
structure Report where
  hex : HexFormat
  output : List Nat
  calls : Nat

/-- A call of `printf` whose result is not looked at. -/
def Report.printf (stack : Nat → Buffer) (report : Report) (format : List Nat) (args : List Arg) :
    Option Report :=
  match PrintfModel.printf report.hex (stack report.calls) format args with
  | (.undefined, _) => none
  | (_, call) => some ⟨call.hex, report.output ++ call.output, report.calls + 1⟩

/-- `"Level %d:"` -/
def levelFormat : List Nat := ['L', 'e', 'v', 'e', 'l', ' ', '%', 'd', ':'].map byte

/-- `"%X "` -/
def headFormat : List Nat := ['%', 'X', ' '].map byte

/-- `"\n"` -/
def lineFormat : List Nat := ['\n'].map byte

/-- `"Total pages is %X\n"` -/
def totalFormat : List Nat :=
  ['T', 'o', 't', 'a', 'l', ' ', 'p', 'a', 'g', 'e', 's', ' ', 'i', 's', ' ', '%', 'X', '\n'].map byte

/-- The inner loop on the list of level `i`. A chain of different frames ends within
as many turns as there are frames. -/
def walkList (stack : Nat → Buffer) (mem : NormalMem) (i : Nat) :
    Nat → Nat → Nat → Report → Option (Nat × Report)
  | 0, cur, totalPagesCount, report =>
      if cur ≠ mem.framesNumber then none else some (totalPagesCount, report)
  | fuel + 1, cur, totalPagesCount, report =>
      if cur ≠ mem.framesNumber then
        (report.printf stack headFormat [.word cur]).bind fun report =>
          walkList stack mem i fuel (mem.page cur).nextFrame
            (add32 totalPagesCount (1 <<< i)) report
      else some (totalPagesCount, report)

/-- The outer loop from level `i` on, with `left` levels left. -/
def walkLevels (stack : Nat → Buffer) (mem : NormalMem) :
    Nat → Nat → Nat → Report → Option (Nat × Report)
  | 0, _, totalPagesCount, report => some (totalPagesCount, report)
  | left + 1, i, totalPagesCount, report =>
      (report.printf stack levelFormat [.word i]).bind fun report =>
        (walkList stack mem i mem.framesNumber (mem.freeLists i) totalPagesCount report).bind
          fun walked =>
            (walked.2.printf stack lineFormat []).bind fun report =>
              walkLevels stack mem left (i + 1) walked.1 report

def printFreeBuddyBlocks (stack : Nat → Buffer) (mem : NormalMem) (report : Report) :
    Option Report :=
  (walkLevels stack mem buddyMaxLevel 0 0 report).bind fun walked =>
    walked.2.printf stack totalFormat [.word walked.1]

/-! ## What is printed -/

/-- `value` as `%X` prints it. -/
def hexOf (value : Nat) : List Nat := (Piece.hex false .plain true value).text

def headsText (heads : List Nat) : List Nat := heads.flatMap fun head => hexOf head ++ [byte ' ']

def levelText (level : Nat) (heads : List Nat) : List Nat :=
  ['L', 'e', 'v', 'e', 'l', ' '].map byte ++ (Piece.decimal level).text ++ [byte ':'] ++
    headsText heads ++ [byte '\n']

def totalText (total : Nat) : List Nat :=
  ['T', 'o', 't', 'a', 'l', ' ', 'p', 'a', 'g', 'e', 's', ' ', 'i', 's', ' '].map byte ++
    hexOf total ++ [byte '\n']

/-- The lines of the levels from `level` on. -/
def levelsText (heads : Nat → List Nat) : Nat → Nat → List Nat
  | 0, _ => []
  | left + 1, level => levelText level (heads level) ++ levelsText heads left (level + 1)

section Printing

variable (stack : Nat → Buffer)

/-- A format without `%c` whose text is not too long is printed as it stands. -/
theorem printf_pieces (report : Report) {pieces : List Piece}
    (wellFormed : ∀ piece ∈ pieces, piece.WellFormed)
    (once : ∀ value, Piece.char value ∉ pieces) (bounded : (rendering pieces).length ≤ intMax) :
    ∃ hex, report.printf stack (formatOf pieces) (argsOf pieces) =
      some ⟨hex, report.output ++ rendering pieces, report.calls + 1⟩ := by
  have same : printedFrom [] pieces = rendering pieces := by
    rw [printed_eq_rendering_iff]
    intro before value after split
    exact absurd (by rw [split]; simp) (once value)
  have finished := printf_loop_prints (pieces.length + 1) pieces (formatOf pieces).length
    { hex := report.hex, buf := stack report.calls, str := .null, args := argsOf pieces
      written := 0, output := [] }
    (Nat.lt_succ_self _) wellFormed le_rfl rfl rfl
  rw [Call.text, same] at finished
  rw [Report.printf, PrintfModel.printf]
  rcases finished with ⟨after, run, output, -⟩ | ⟨after, run, large⟩
  · rw [run]
    refine ⟨after.hex, ?_⟩
    rw [List.nil_append] at output
    simp only [output]
  · simp only [List.length_nil] at large
    omega

theorem hex_of_length {value : Nat} (word : value < wordSize) : (hexOf value).length < bufSize :=
  hex_text_length word (by decide)

/-- One of the four calls: a fixed text around at most one number. -/
theorem printf_short (report : Report) (pieces : List Piece) {format text : List Nat}
    {args : List Arg} (formatted : formatOf pieces = format) (arguments : argsOf pieces = args)
    (rendered : rendering pieces = text) (wellFormed : ∀ piece ∈ pieces, piece.WellFormed)
    (once : ∀ value, Piece.char value ∉ pieces) (short : text.length ≤ 2 * bufSize) :
    ∃ after, report.printf stack format args = some after ∧
      after.output = report.output ++ text := by
  have bounded : (rendering pieces).length ≤ intMax := by
    rw [rendered]
    exact Nat.le_trans short (by decide)
  obtain ⟨hex, printed⟩ := printf_pieces stack report wellFormed once bounded
  rw [formatted, arguments, rendered] at printed
  exact ⟨_, printed, rfl⟩

theorem head_printed (report : Report) {head : Nat} (word : head < wordSize) :
    ∃ after, report.printf stack headFormat [.word head] = some after ∧
      after.output = report.output ++ (hexOf head ++ [byte ' ']) := by
  have number := hex_of_length word
  have short : (hexOf head ++ [byte ' ']).length ≤ 2 * bufSize := by
    rw [List.length_append, List.length_singleton]
    omega
  refine printf_short stack report [.hex false .plain true head, .literal (byte ' ')] rfl rfl rfl
    ?_ (by simp) short
  simpa [Piece.WellFormed] using ⟨word, by decide⟩

theorem line_printed (report : Report) :
    ∃ after, report.printf stack lineFormat [] = some after ∧
      after.output = report.output ++ [byte '\n'] := by
  refine printf_short stack report [.literal (byte '\n')] rfl rfl rfl ?_ (by simp) (by decide)
  simpa [Piece.WellFormed] using ⟨by decide, by decide⟩

/-- The literal bytes of a text. -/
def literals (text : List Char) : List Piece := text.map fun character => .literal (byte character)

theorem level_printed (report : Report) {level : Nat} (bound : level < buddyMaxLevel) :
    ∃ after, report.printf stack levelFormat [.word level] = some after ∧
      after.output = report.output ++ (['L', 'e', 'v', 'e', 'l', ' '].map byte ++
        (Piece.decimal level).text ++ [byte ':']) := by
  have word : level < wordSize := Nat.lt_trans bound (by decide)
  have number : (Piece.decimal level).text.length < bufSize := decimal_text_length word
  have short : (['L', 'e', 'v', 'e', 'l', ' '].map byte ++ (Piece.decimal level).text ++
      [byte ':']).length ≤ 2 * bufSize := by
    have size : bufSize = 100 := rfl
    simp only [List.length_append, List.length_map, List.length_cons, List.length_nil]
    omega
  refine printf_short stack report
    (literals ['L', 'e', 'v', 'e', 'l', ' '] ++ [Piece.decimal level, Piece.literal (byte ':')])
    rfl rfl rfl ?_ (by simp [literals]) short
  simp only [literals, List.map_cons, List.map_nil, List.cons_append, List.nil_append,
    List.forall_mem_cons, Piece.WellFormed]
  exact ⟨by decide, by decide, by decide, by decide, by decide, by decide, word, by decide, by simp⟩

theorem total_printed (report : Report) {total : Nat} (word : total < wordSize) :
    ∃ after, report.printf stack totalFormat [.word total] = some after ∧
      after.output = report.output ++ totalText total := by
  have number := hex_of_length word
  have short : (totalText total).length ≤ 2 * bufSize := by
    have size : bufSize = 100 := rfl
    simp only [totalText, List.length_append, List.length_map, List.length_cons, List.length_nil]
    omega
  refine printf_short stack report
    (literals ['T', 'o', 't', 'a', 'l', ' ', 'p', 'a', 'g', 'e', 's', ' ', 'i', 's', ' '] ++
      [Piece.hex false .plain true total, Piece.literal (byte '\n')]) rfl rfl rfl ?_
    (by simp [literals]) short
  intro piece listed
  rcases List.mem_append.mp listed with literal | other
  · obtain ⟨character, member, rfl⟩ := List.mem_map.mp literal
    have plain : ∀ code ∈ ['T', 'o', 't', 'a', 'l', ' ', 'p', 'a', 'g', 'e', 's', ' ', 'i', 's',
        ' '].map byte, code ≠ 0 ∧ code ≠ byte '%' := by decide
    exact plain _ (List.mem_map_of_mem member)
  · simp only [List.mem_cons, List.not_mem_nil, or_false] at other
    rcases other with rfl | rfl
    · exact word
    · exact ⟨by decide, by decide⟩

/-- The inner loop prints the heads of the list and adds up their blocks. -/
theorem walk_list_prints {mem : NormalMem} {level : Nat} (word : mem.framesNumber < wordSize)
    {nodes : List Nat} {fuel cur total : Nat} (report : Report)
    (follows : Follows (nextOf mem) mem.framesNumber cur nodes) (turns : nodes.length ≤ fuel)
    (inside : ∀ node ∈ nodes, node < mem.framesNumber)
    (room : total + nodes.length * 2 ^ level < wordSize) :
    ∃ after, walkList stack mem level fuel cur total report =
        some (total + nodes.length * 2 ^ level, after) ∧
      after.output = report.output ++ headsText nodes := by
  induction nodes generalizing fuel cur total report with
  | nil =>
      have stop : cur = mem.framesNumber := (follows_nil_iff follows).mp rfl
      refine ⟨report, ?_, by simp [headsText]⟩
      cases fuel <;> simp [walkList, stop]
  | cons node rest induction =>
      obtain ⟨rfl, going, later⟩ := follows
      obtain ⟨fuel, rfl⟩ : ∃ less, fuel = less + 1 := by
        rw [List.length_cons] at turns
        exact ⟨fuel - 1, by omega⟩
      have longer : (rest.length + 1) * 2 ^ level = 2 ^ level + rest.length * 2 ^ level := by ring
      rw [List.length_cons, longer] at room
      have sum : add32 total (1 <<< level) = total + 2 ^ level := by
        rw [add32, Nat.one_shiftLeft, Nat.mod_eq_of_lt (by omega)]
      obtain ⟨first, printed, output⟩ :=
        head_printed stack report (Nat.lt_trans (inside cur List.mem_cons_self) word)
      obtain ⟨after, walked, text⟩ := induction first later
        (Nat.le_of_succ_le_succ turns) (fun other listed => inside other (List.mem_cons_of_mem _ listed))
        (show total + 2 ^ level + rest.length * 2 ^ level < wordSize by omega)
      refine ⟨after, ?_, ?_⟩
      · rw [walkList, if_pos going, printed, Option.bind_some, sum]
        exact walked.trans (by rw [List.length_cons, longer, Nat.add_assoc])
      · rw [text, output, headsText, headsText, List.flatMap_cons, List.append_assoc]

/-- The free lists visit exactly these heads. -/
structure ListHeads (mem : NormalMem) (heads : Nat → List Nat) : Prop where
  follows : ∀ level < buddyMaxLevel,
    Follows (nextOf mem) mem.framesNumber (mem.freeLists level) (heads level)
  inside : ∀ level < buddyMaxLevel, ∀ head ∈ heads level, head < mem.framesNumber

/-- The blocks on the lists from `level` on. -/
def blocksFrom (heads : Nat → List Nat) : Nat → Nat → List (Nat × Nat)
  | 0, _ => []
  | left + 1, level => (heads level).map (·, level) ++ blocksFrom heads left (level + 1)

theorem mem_blocks_from {heads : Nat → List Nat} {left first index level : Nat} :
    (index, level) ∈ blocksFrom heads left first ↔
      first ≤ level ∧ level < first + left ∧ index ∈ heads level := by
  induction left generalizing first with
  | zero => exact iff_of_false List.not_mem_nil (by omega)
  | succ left induction =>
      rw [blocksFrom, List.mem_append, induction]
      constructor
      · rintro (here | ⟨low, high, member⟩)
        · obtain ⟨head, member, same⟩ := List.mem_map.mp here
          obtain ⟨rfl, rfl⟩ := Prod.mk.inj same
          exact ⟨le_rfl, by omega, member⟩
        · exact ⟨by omega, by omega, member⟩
      · rintro ⟨low, high, member⟩
        rcases Nat.eq_or_lt_of_le low with rfl | later
        · exact Or.inl (List.mem_map.mpr ⟨index, member, rfl⟩)
        · exact Or.inr ⟨later, by omega, member⟩

theorem blocks_from_nodup {heads : Nat → List Nat} {left first : Nat}
    (distinct : ∀ level, first ≤ level → level < first + left → (heads level).Nodup) :
    (blocksFrom heads left first).Nodup := by
  induction left generalizing first with
  | zero => exact List.nodup_nil
  | succ left induction =>
      rw [blocksFrom, List.nodup_append]
      refine ⟨?_, ?_, ?_⟩
      · exact (distinct first le_rfl (by omega)).map fun _ _ same => (Prod.mk.inj same).1
      · exact induction fun level low high => distinct level (by omega) (by omega)
      · rintro block here other later rfl
        obtain ⟨head, -, rfl⟩ := List.mem_map.mp here
        exact absurd (mem_blocks_from.mp later).1 (by omega)

theorem pages_of_level (level : Nat) (nodes : List Nat) :
    pagesOf (nodes.map (·, level)) = nodes.length * 2 ^ level := by
  simp [pagesOf, Function.comp_def]

theorem walk_levels_prints {mem : NormalMem} {heads : Nat → List Nat}
    (word : mem.framesNumber < wordSize) (lists : ListHeads mem heads) {left level total : Nat}
    (report : Report) (levels : level + left ≤ buddyMaxLevel)
    (room : total + pagesOf (blocksFrom heads left level) < wordSize) :
    ∃ after, walkLevels stack mem left level total report =
        some (total + pagesOf (blocksFrom heads left level), after) ∧
      after.output = report.output ++ levelsText heads left level := by
  induction left generalizing level total report with
  | zero => exact ⟨report, rfl, (List.append_nil _).symm⟩
  | succ left induction =>
      have bound : level < buddyMaxLevel := by omega
      rw [blocksFrom, pages_of_append, pages_of_level, ← Nat.add_assoc] at room
      have follows := lists.follows level bound
      have few : (heads level).length ≤ mem.framesNumber := by
        rw [← List.toFinset_card_of_nodup (follows_nodup follows), ← Finset.card_range mem.framesNumber]
        apply Finset.card_le_card
        intro head listed
        exact Finset.mem_range.mpr (lists.inside level bound head (List.mem_toFinset.mp listed))
      obtain ⟨titled, title, titleText⟩ := level_printed stack report bound
      obtain ⟨walked, walk, walkText⟩ := walk_list_prints stack word titled follows few
        (lists.inside level bound) (Nat.lt_of_le_of_lt (Nat.le_add_right _ _) room)
      obtain ⟨ended, line, lineText⟩ := line_printed stack walked
      obtain ⟨after, rest, restText⟩ := induction ended (show level + 1 + left ≤ _ by omega)
        room
      refine ⟨after, ?_, ?_⟩
      · rw [walkLevels, title, Option.bind_some, walk, Option.bind_some, line, Option.bind_some, rest,
          blocksFrom, pages_of_append, pages_of_level, Nat.add_assoc]
      · rw [restText, lineText, walkText, titleText]
        simp only [levelsText, levelText, List.append_assoc]

/-- The whole report, for lists of no more pages than a word can count. -/
theorem report_prints {mem : NormalMem} {heads : Nat → List Nat} (word : mem.framesNumber < wordSize)
    (lists : ListHeads mem heads) (room : pagesOf (blocksFrom heads buddyMaxLevel 0) < wordSize)
    (report : Report) :
    ∃ after, printFreeBuddyBlocks stack mem report = some after ∧
      after.output = report.output ++ (levelsText heads buddyMaxLevel 0 ++
        totalText (pagesOf (blocksFrom heads buddyMaxLevel 0))) := by
  obtain ⟨walked, walk, walkText⟩ := walk_levels_prints stack word lists report
    (Nat.zero_add _).le (show 0 + pagesOf _ < wordSize by rwa [Nat.zero_add])
  rw [Nat.zero_add] at walk
  obtain ⟨after, last, lastText⟩ := total_printed stack walked room
  refine ⟨after, ?_, ?_⟩
  · rw [printFreeBuddyBlocks, walk, Option.bind_some, last]
  · rw [lastText, walkText, List.append_assoc]

end Printing

/-! ## Nothing is lost -/

/-- The table and the client agree on every allocated block. -/
structure Accounted (memBase framesNumber : Nat) (client : Client) : Prop where
  base : client.mem.base = memBase
  number : client.mem.framesNumber = framesNumber
  sound : ∃ free taken, Sound client.mem free taken ∧
    ∀ index level, (index, level) ∈ client.blocks ↔ taken index level
  distinct : client.blocks.Nodup

section Steps

variable {memBase framesNumber : Nat} {client : Client}

theorem accounted_fresh (memBase : Nat) (room : 1024 ≤ framesNumber) (bound : framesNumber ≤ 2 ^ 20) :
    Accounted memBase framesNumber (freshClient memBase framesNumber) := by
  obtain ⟨free, sound, number, base, -⟩ := init_zone_sound memBase framesNumber room bound
  refine ⟨base, number, ⟨free, noBlocks, sound, fun index level => ?_⟩, List.nodup_nil⟩
  exact iff_of_false List.not_mem_nil id

theorem accounted_read (index : Nat) (accounted : Accounted memBase framesNumber client) :
    Accounted memBase framesNumber ⟨client.mem.read index, client.blocks⟩ := by
  obtain ⟨free, taken, sound, exact⟩ := accounted.sound
  exact ⟨accounted.base, accounted.number,
    ⟨free, taken, ⟨sound.represents.read _, sound.layout⟩, exact⟩, accounted.distinct⟩

theorem accounted_get_block (accounted : Accounted memBase framesNumber client) (level : Nat)
    {result : Option Nat} {mem' : NormalMem}
    (call : buddySystemGetFramePageBlock level client.mem = (result, mem')) :
    Accounted memBase framesNumber ⟨mem', granted mem' result ++ client.blocks⟩ := by
  obtain ⟨free, taken, sound, exact⟩ := accounted.sound
  rcases get_block_sound sound level call with ⟨rfl, rfl⟩ | ⟨index, free', rfl, handed⟩
  · exact accounted
  · refine ⟨handed.base.trans accounted.base, handed.number.trans accounted.number,
      ⟨free', _, handed.sound, fun other height => ?_⟩, ?_⟩
    · rw [granted, handed.ownLevel, List.singleton_append, List.mem_cons, Prod.mk.injEq, exact,
        withBlock, or_comm]
    · rw [granted, List.singleton_append, List.nodup_cons]
      refine ⟨fun listed => ?_, accounted.distinct⟩
      exact handed.fresh _ ((exact _ _).mp listed)

theorem accounted_free_block (accounted : Accounted memBase framesNumber client) {block : Block}
    (listed : block ∈ client.blocks) (safe : SafeToFree client.mem block.1) :
    Accounted memBase framesNumber
      ⟨(buddySystemFreeFramePageBlock block.1 client.mem).2, client.blocks.erase block⟩ := by
  obtain ⟨free, taken, sound, exact⟩ := accounted.sound
  have member : taken block.1 block.2 := (exact block.1 block.2).mp listed
  obtain ⟨mem', free', call, back⟩ := free_block_sound sound member safe
  rw [call]
  refine ⟨back.base.trans accounted.base, back.number.trans accounted.number,
    ⟨free', _, back.sound, fun index level => ?_⟩, accounted.distinct.erase block⟩
  rw [accounted.distinct.mem_erase_iff, exact, without, and_comm]
  refine and_congr_right fun kept => not_congr ⟨fun same => (Prod.ext_iff.mp same).1, fun same => ?_⟩
  subst same
  exact Prod.ext rfl (sound.layout.level_unique (Or.inr kept) (Or.inr member))

/-- The address of a frame of the pool, which is never null. -/
theorem accounted_address (positive : 0 < memBase)
    (fits : memBase + framesNumber * pageFrameSize ≤ wordSize)
    (accounted : Accounted memBase framesNumber client) {index : Nat} (inside : index < framesNumber) :
    (client.mem.page index).physicAddr ≠ 0 ∧
      sub32 (client.mem.page index).physicAddr client.mem.base / pageFrameSize = index := by
  obtain ⟨free, taken, sound, -⟩ := accounted.sound
  have known := (sound.represents.identity index (by rw [accounted.number]; exact inside)).2
  have before : index * pageFrameSize < framesNumber * pageFrameSize :=
    Nat.mul_lt_mul_of_pos_right inside (by decide)
  have small : index * pageFrameSize < wordSize := by omega
  rw [known, sub32_add32_cancel small, Nat.mul_div_cancel _ (by decide), accounted.base, add32,
    Nat.mod_eq_of_lt (by omega)]
  exact ⟨by omega, rfl⟩

theorem accounted_frame_alloc (accounted : Accounted memBase framesNumber client) {pages : Nat}
    {result : Option Nat} {mem' : NormalMem}
    (call : frameAlloc pages client.mem = some (result, mem')) :
    Accounted memBase framesNumber ⟨mem', granted mem' result ++ client.blocks⟩ := by
  unfold frameAlloc at call
  obtain ⟨level, -, taken⟩ := Option.bind_eq_some_iff.mp call
  exact accounted_get_block accounted level (Option.some.inj taken)

theorem accounted_physic_alloc (positive : 0 < memBase)
    (fits : memBase + framesNumber * pageFrameSize ≤ wordSize)
    (accounted : Accounted memBase framesNumber client) {bytes address : Nat} {mem' : NormalMem}
    (call : physicAlloc bytes client.mem = some (address, mem')) :
    Accounted memBase framesNumber
      ⟨mem', granted mem' (frameAtAddress mem' address) ++ client.blocks⟩ := by
  unfold physicAlloc at call
  obtain ⟨⟨result, mem''⟩, frames, rest⟩ := Option.bind_eq_some_iff.mp call
  have after := accounted_frame_alloc accounted frames
  cases result with
  | none =>
      cases rest
      exact after
  | some index =>
      cases rest
      have inside : index < framesNumber := by
        obtain ⟨free, taken, sound, exact⟩ := after.sound
        have member := (exact index (mem''.page index).level).mp (by simp [granted])
        have start := sound.layout.tiling.start_lt (Or.inr member)
        rwa [after.number] at start
      obtain ⟨some, own⟩ := accounted_address positive fits after inside
      rw [frameAtAddress, if_neg some, base_read, own]
      exact accounted_read index after

theorem accounted_step (positive : 0 < memBase)
    (fits : memBase + framesNumber * pageFrameSize ≤ wordSize) (client : Client) (op : FrameOp)
    (next : Client) (accounted : Accounted memBase framesNumber client)
    (repaired : LinksRepaired client op) (call : clientStep client op = some next) :
    Accounted memBase framesNumber next := by
  cases op with
  | frameAlloc pages =>
      simp only [clientStep] at call
      split_ifs at call
      obtain ⟨answer, frames, rfl⟩ := Option.map_eq_some_iff.mp call
      exact accounted_frame_alloc accounted frames
  | physicAlloc bytes =>
      simp only [clientStep] at call
      split_ifs at call
      obtain ⟨answer, frames, rfl⟩ := Option.map_eq_some_iff.mp call
      exact accounted_physic_alloc positive fits accounted frames
  | frameFree block =>
      simp only [clientStep] at call
      split_ifs at call with listed
      cases call
      obtain ⟨free, taken, sound, exact⟩ := accounted.sound
      have inside := sound.layout.tiling.start_lt (Or.inr ((exact block.1 block.2).mp listed))
      rw [frameFree, (sound.represents.identity block.1 inside).1]
      exact accounted_free_block (accounted_read block.1 accounted) listed repaired
  | physicFree block =>
      simp only [clientStep] at call
      split_ifs at call with listed
      cases call
      obtain ⟨free, taken, sound, exact⟩ := accounted.sound
      have inside := sound.layout.tiling.start_lt (Or.inr ((exact block.1 block.2).mp listed))
      rw [accounted.number] at inside
      obtain ⟨some, own⟩ := accounted_address positive fits accounted inside
      rw [physicFree, if_neg some, own]
      exact accounted_free_block accounted listed repaired

/-- What the lists of an accounted table hold, once each, is what the client does not. -/
theorem accounted_lists (accounted : Accounted memBase framesNumber client) :
    ∃ heads, ListHeads client.mem heads ∧
      (∀ level < buddyMaxLevel, ∀ head, head ∈ heads level ↔ IsFreeBlock client.mem head level) ∧
      pagesOf (blocksFrom heads buddyMaxLevel 0) + pagesOf client.blocks = framesNumber := by
  obtain ⟨free, taken, sound, exact⟩ := accounted.sound
  have rep := sound.represents
  have lists : ∀ level, ∃ nodes, level < buddyMaxLevel →
      Threaded (nextOf client.mem) (prevOf client.mem) client.mem.framesNumber
        (client.mem.freeLists level) nodes ∧ ∀ index, index ∈ nodes ↔ free index level := by
    intro level
    by_cases bound : level < buddyMaxLevel
    · obtain ⟨nodes, threaded⟩ := rep.lists level bound
      exact ⟨nodes, fun _ => threaded⟩
    · exact ⟨[], fun below => absurd below bound⟩
  choose heads threaded using lists
  have listed : ∀ index level, (index, level) ∈ blocksFrom heads buddyMaxLevel 0 ↔
      free index level := by
    intro index level
    rw [mem_blocks_from]
    constructor
    · rintro ⟨-, below, member⟩
      exact ((threaded level (by omega)).2 index).mp member
    · intro member
      have bound := sound.level_lt (Or.inl member)
      exact ⟨Nat.zero_le _, by omega, ((threaded level bound).2 index).mpr member⟩
  refine ⟨heads, ⟨fun level bound => (threaded level bound).1.follows, fun level bound head member =>
    rep.free_lt (((threaded level bound).2 head).mp member)⟩, ?_, ?_⟩
  · intro level bound head
    rw [(threaded level bound).2 head, rep.freeHead, not_exempt_iff, IsFreeBlock]
  · rw [← pages_of_append, ← accounted.number]
    apply tiling_pages sound.layout.tiling
    · apply List.nodup_append.mpr
      refine ⟨?_, accounted.distinct, ?_⟩
      · apply blocks_from_nodup
        intro level _ bound
        exact follows_nodup (threaded level (by omega)).1.follows
      · rintro block free other taken rfl
        exact rep.not_both ((listed block.1 block.2).mp free) ((exact block.1 block.2).mp taken)
    · intro index level
      rw [List.mem_append, listed, exact]

end Steps

/-- In every run that frees no block over a stale first link, the report lists on each
level exactly the heads of the free blocks, each once, and its total is the pool less
the pages of the blocks that the client holds. -/
theorem report_accounts_for_pool {memBase framesNumber : Nat} (room : 1024 ≤ framesNumber)
    (bound : framesNumber ≤ 2 ^ 20) (positive : 0 < memBase)
    (fits : memBase + framesNumber * pageFrameSize ≤ wordSize) {ops : List FrameOp} {final : Client}
    (repaired : Permitted clientStep LinksRepaired (freshClient memBase framesNumber) ops)
    (run : runFrom clientStep (freshClient memBase framesNumber) ops = some final)
    (stack : Nat → Buffer) (report : Report) :
    ∃ heads after,
      (∀ level < buddyMaxLevel, (heads level).Nodup ∧
        ∀ head, head ∈ heads level ↔ IsFreeBlock final.mem head level) ∧
      printFreeBuddyBlocks stack final.mem report = some after ∧
      after.output = report.output ++ (levelsText heads buddyMaxLevel 0 ++
        totalText (framesNumber - pagesOf final.blocks)) := by
  have accounted := run_invariant (accounted_step positive fits) (accounted_fresh memBase room bound)
    repaired run
  obtain ⟨heads, lists, free, whole⟩ := accounted_lists accounted
  have word : final.mem.framesNumber < wordSize := by
    rw [accounted.number]
    exact Nat.lt_of_le_of_lt bound (by decide)
  have total : pagesOf (blocksFrom heads buddyMaxLevel 0) = framesNumber - pagesOf final.blocks := by
    omega
  obtain ⟨after, printed, text⟩ := report_prints stack word lists
    (by rw [total]; exact Nat.lt_of_le_of_lt (Nat.sub_le _ _) (accounted.number ▸ word)) report
  refine ⟨heads, after, fun level below => ⟨?_, free level below⟩, printed, ?_⟩
  · exact follows_nodup (lists.follows level below)
  · rw [text, total]

/-- Three pages are out when the report is printed. -/
theorem report_accounts_for_pool_sample : ∃ final after before,
    runFrom clientStep (freshClient 0x200000 1024)
        [.frameAlloc 256, .physicAlloc 8192, .frameFree (0, 8), .frameAlloc 1] = some final ∧
      printFreeBuddyBlocks (fun _ => sampleBuffer) final.mem ⟨sampleHex, [], 0⟩ = some after ∧
      after.output = before ++ totalText 1021 := by
  have facts : ((runFrom clientStep (freshClient 0x200000 1024)
      [.frameAlloc 256, .physicAlloc 8192, .frameFree (0, 8), .frameAlloc 1]).map fun final =>
        pagesOf final.blocks) = some 3 := by
    decide +kernel
  obtain ⟨final, run, pages⟩ := Option.map_eq_some_iff.mp facts
  have repaired : Permitted clientStep LinksRepaired (freshClient 0x200000 1024)
      [.frameAlloc 256, .physicAlloc 8192, .frameFree (0, 8), .frameAlloc 1] := by
    decide +kernel
  obtain ⟨heads, after, -, printed, text⟩ := report_accounts_for_pool (by decide) (by decide)
    (by decide) (by decide) repaired run (fun _ => sampleBuffer) ⟨sampleHex, [], 0⟩
  rw [pages] at text
  exact ⟨final, after, _, run, printed, text⟩

end ChaoOS.FreeReport
