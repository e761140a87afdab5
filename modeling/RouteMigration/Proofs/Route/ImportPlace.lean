import RouteMigration.Proofs.Route.ImportScript

set_option autoImplicit false

namespace RouteMigration

-- A closing brace closes the one that was opened last, if there is one.
def Text.openBraces (depth : Nat) : Text → Nat
  | [] => depth
  | c :: rest =>
    if c = '\x7b' then openBraces (depth + 1) rest
    else if c = '\x7d' then openBraces (depth - 1) rest
    else openBraces depth rest

namespace Route

structure FirstImport (content : Text) (earlier : List Text) (line : Text) (later : List Text) :
    Prop where
  lines : split '\n' content = earlier ++ line :: later
  plain : ∀ other ∈ earlier, isImportLine other = false
  imports : isImportLine line = true

structure AddedBehind (content : Text) (earlier : List Text) (span rest : Text) : Prop where
  source : content = earlier.flatMap (· ++ ['\n']) ++ (span ++ rest)
  placed : injectImport content =
    earlier.flatMap (· ++ ['\n']) ++ (span ++ ('\n' :: importLineFor content ++ rest))

theorem level_importLineFor (content : Text) : '\n' ∉ importLineFor content := by
  unfold importLineFor
  split <;> decide +kernel

theorem eq_nil_of_shifted (inserted between : Text) (level : '\n' ∉ inserted)
    (absent : ¬ inserted <:+: between)
    (shifted : between ++ '\n' :: inserted = '\n' :: inserted ++ between) : between = [] := by
  cases between with
  | nil => rfl
  | cons c more =>
    obtain ⟨rfl, same⟩ := List.cons.inj shifted
    exfalso
    rcases List.append_eq_append_iff.mp same with ⟨tail, rfl, ends⟩ | ⟨tail, rfl, -⟩
    · cases tail with
      | nil => exact absent ⟨['\n'], [], by simp⟩
      | cons d tail =>
        obtain ⟨rfl, -⟩ := List.cons.inj ends
        exact level (by simp)
    · exact absent ⟨['\n'], tail, by simp⟩

section Fallback

variable (content : Text) (unsourced : ¬ helperImportSource <:+: content)
  (unanchored : ¬ frameworkImportPrefix <:+: content) (earlier : List Text) (line : Text)
  (later : List Text)

include unsourced

theorem importLineFor_absent : ¬ importLineFor content <:+: content :=
  fun held => unsourced ((source_infix_importLineFor content).trans held)

include unanchored in
theorem exists_firstImport (imports : ∃ line ∈ split '\n' content, isImportLine line = true) :
    ∃ earlier line later, FirstImport content earlier line later ∧
      AddedBehind content earlier line (later.flatMap ('\n' :: ·)) := by
  have placed := injectImport_placed content
  generalize same : injectImport content = result at placed
  cases placed with
  | present sourced => exact absurd sourced unsourced
  | framework _ anchored => exact absurd anchored unanchored
  | nowhere _ _ plain =>
    obtain ⟨line, member, opens⟩ := imports
    rw [plain line member] at opens
    cases opens
  | afterLine _ _ earlier line later lines plain opens =>
    refine ⟨earlier, line, later, ⟨lines, plain, opens⟩, ?_, ?_⟩
    · rw [← join_around, ← lines, join_split]
    · rw [same, join_around, List.flatMap_cons]

theorem addedBehind_iff (firstImport : FirstImport content earlier line later)
    (added : AddedBehind content earlier line (later.flatMap ('\n' :: ·))) (span rest : Text) :
    AddedBehind content earlier span rest ↔ span = line ∧ rest = later.flatMap ('\n' :: ·) := by
  constructor
  · intro other
    have level : '\n' ∉ line :=
      not_mem_of_mem_split '\n' content line (by rw [firstImport.lines]; simp)
    have source := List.append_cancel_left (added.source.symm.trans other.source)
    have placed := List.append_cancel_left (added.placed.symm.trans other.placed)
    rcases List.append_eq_append_iff.mp source with ⟨between, rfl, after⟩ | ⟨between, rfl, rfl⟩
    · have absent : ¬ importLineFor content <:+: between := by
        intro held
        have whole := added.source
        rw [after] at whole
        apply importLineFor_absent content unsourced
        exact held.trans ⟨earlier.flatMap (· ++ ['\n']) ++ line, rest, by simpa using whole.symm⟩
      have shifted : between ++ '\n' :: importLineFor content =
          '\n' :: importLineFor content ++ between := by
        rw [after, List.append_assoc, List.append_cancel_left_eq, ← List.append_assoc,
          ← List.append_assoc, List.append_cancel_right_eq] at placed
        exact placed.symm
      obtain rfl := eq_nil_of_shifted _ between (level_importLineFor content) absent shifted
      exact ⟨List.append_nil line, after.symm⟩
    · -- The line has no line end in it that the import could have been put before.
      cases between with
      | nil => exact ⟨(List.append_nil span).symm, rfl⟩
      | cons c between =>
        rw [List.append_assoc, List.append_cancel_left_eq] at placed
        rw [(List.cons.inj placed).1] at level
        exact absurd (by simp) level
  · rintro ⟨rfl, rfl⟩
    exact added

end Fallback

theorem import_behind_first_line (content : Text) (unsourced : ¬ helperImportSource <:+: content)
    (unanchored : ¬ frameworkImportPrefix <:+: content)
    (imports : ∃ line ∈ split '\n' content, isImportLine line = true) :
    ∃ earlier line later, FirstImport content earlier line later ∧
      (∀ span rest, AddedBehind content earlier span rest ↔
        span = line ∧ rest = later.flatMap ('\n' :: ·)) ∧
      ((∃ span rest, AddedBehind content earlier span rest ∧ span.openBraces 0 = 0) ↔
        line.openBraces 0 = 0) := by
  obtain ⟨earlier, line, later, firstImport, added⟩ :=
    exists_firstImport content unsourced unanchored imports
  have only := addedBehind_iff content unsourced earlier line later firstImport added
  refine ⟨earlier, line, later, firstImport, only, ?_⟩
  constructor
  · rintro ⟨span, rest, behind, closed⟩
    rw [((only span rest).mp behind).1] at closed
    exact closed
  · exact fun closed => ⟨line, _, added, closed⟩

def listedImportRoute : Text :=
  "// route\nimport \x7b z \x7d from \"zod\";\nfetch(url)".toList

theorem import_behind_first_line_listedImportRoute :
    ¬ helperImportSource <:+: listedImportRoute ∧ ¬ frameworkImportPrefix <:+: listedImportRoute ∧
      ∃ earlier line later, FirstImport listedImportRoute earlier line later ∧
        AddedBehind listedImportRoute earlier line (later.flatMap ('\n' :: ·)) := by
  have unsourced : ¬ helperImportSource <:+: listedImportRoute := by decide +kernel
  have unanchored : ¬ frameworkImportPrefix <:+: listedImportRoute := by decide +kernel
  obtain ⟨earlier, line, later, firstImport, only, -⟩ :=
    import_behind_first_line listedImportRoute unsourced unanchored (by decide +kernel)
  exact ⟨unsourced, unanchored, earlier, line, later, firstImport, (only _ _).mpr ⟨rfl, rfl⟩⟩

def brokenListRoute : Text :=
  "import \x7b\n  a,\n\x7d from \"b\";\nfetch(u)".toList

theorem import_within_list :
    ¬ helperImportSource <:+: brokenListRoute ∧ ¬ frameworkImportPrefix <:+: brokenListRoute ∧
      ∃ line later, FirstImport brokenListRoute [] line later ∧
        (∃ span rest, AddedBehind brokenListRoute [] span rest) ∧
        ∀ span rest, AddedBehind brokenListRoute [] span rest → span.openBraces 0 = 1 := by
  have unsourced : ¬ helperImportSource <:+: brokenListRoute := by decide +kernel
  have firstImport : FirstImport brokenListRoute [] "import \x7b".toList
      ["  a,".toList, "\x7d from \"b\";".toList, "fetch(u)".toList] :=
    ⟨by decide +kernel, by simp, by decide⟩
  have added : AddedBehind brokenListRoute [] "import \x7b".toList
      "\n  a,\n\x7d from \"b\";\nfetch(u)".toList :=
    ⟨by decide +kernel, by decide +kernel⟩
  refine ⟨unsourced, by decide +kernel, _, _, firstImport, ⟨_, _, added⟩, ?_⟩
  intro span rest other
  have only := addedBehind_iff brokenListRoute unsourced [] _ _ firstImport added span rest
  rw [(only.mp other).1]
  decide +kernel

end Route

end RouteMigration
