import Mathlib.Data.List.Forall2
import RouteMigration.Proofs.Migration.Effect
import RouteMigration.Proofs.Route.Recognition

set_option autoImplicit false

namespace RouteMigration

namespace Disk

variable (config : Config)

def Settled (disk : Disk) (files : List Path) (place : Location) : Prop :=
  ∀ path ∈ files, disk.locate true path = .ok place →
    ∀ missing, (disk.processFile config path).2 ≠ .updated missing

theorem settled_congr {first second : Disk} (same : first.outline = second.outline)
    (files : List Path) (place : Location) (held : first.item? place = second.item? place) :
    first.Settled config files place ↔ second.Settled config files place := by
  have turns (path : Path) (located : first.locate true path = .ok place) :
      (first.processFile config path).2 = (second.processFile config path).2 := by
    apply processFile_congr same
    intro other located'
    cases located.symm.trans located'
    exact held
  constructor
  · intro settled path member located
    rw [← locate_congr same] at located
    rw [← turns path located]
    exact settled path member located
  · intro settled path member located
    rw [turns path located]
    rw [locate_congr same] at located
    exact settled path member located

theorem settled_cons (disk : Disk) (path : Path) (later : List Path) (place : Location) :
    disk.Settled config (path :: later) place ↔
      ¬ ((∃ missing, (disk.processFile config path).2 = .updated missing) ∧
        disk.locate true path = .ok place) ∧ disk.Settled config later place := by
  simp only [Settled, List.forall_mem_cons, not_and, ne_eq]
  constructor
  · rintro ⟨first, rest⟩
    exact ⟨fun ⟨missing, updated⟩ located => first located missing updated, rest⟩
  · rintro ⟨first, rest⟩
    exact ⟨fun located missing updated => first ⟨missing, updated⟩ located, rest⟩

theorem settled_iff (disk : Disk) (files : List Path) (place : Location) :
    disk.Settled config files place ↔ ¬ disk.Updates (disk.processAll config files).2 place := by
  induction files generalizing disk with
  | nil => simp [Settled, processAll, Updates]
  | cons path later ih =>
    have same := disk.outline_processFile config path
    simp only [settled_cons, processAll, updates_cons, not_or]
    apply and_congr_right
    intro first
    have held : (disk.processFile config path).1.item? place = disk.item? place :=
      disk.item?_processFile config path place fun updated located => first ⟨updated, located⟩
    rw [← settled_congr config same later place held, ih, updates_congr same]

theorem item?_of_settled (disk : Disk) (files : List Path) (place : Location)
    (settled : disk.Settled config files place) :
    (disk.processAll config files).1.item? place = disk.item? place :=
  item?_processAll config disk files place ((settled_iff config disk files place).mp settled)

theorem boundedText_other {path : Path} {limit : UInt64} {data : ByteArray} {text : Text}
    (read : boundedText path limit data = .ok text) (other : Path) :
    boundedText other limit data = .ok text := by
  simp only [boundedText] at read ⊢
  split at read
  next => cases read
  next fits =>
    rw [if_neg fits]
    split at read
    next => cases read
    next => exact read

theorem settled_of_marked (disk : Disk) (files : List Path) (place : Location) (mode : Mode)
    (text : Text) (held : disk.item? place = some (.file mode (Utf8.encode text)))
    (storable : (Utf8.encode text).size < UInt64.size)
    (marked : Text.holds Route.helperMarker text = true) : disk.Settled config files place := by
  intro path _ located missing updated
  rcases disk.processFile_cases config path with
    ⟨outcome, left, never⟩ | ⟨_, _, _, content, result, _, rewritable, _, _⟩
  · rw [left] at updated
    exact never missing updated
  · obtain ⟨_, _, data, standing, _, bounded⟩ := rewritable.standing
    cases (status_of_locate located held).symm.trans standing
    have decoded := ((boundedText_eq_ok_iff path _ _ storable content).mp bounded).2
    rw [Utf8.decode_encode] at decoded
    cases decoded
    have eligible := rewritable.eligible
    simp [Route.exclusion?, marked] at eligible

theorem processFile_marked (disk : Disk) (path : Path) (place : Location) (mode : Mode)
    (text : Text)
    (standing : disk.status path = .ok (place, .file mode (Utf8.encode text)))
    (readable : mode.readable = true)
    (fits : (Utf8.encode text).size ≤ config.maxFileSize.toNat)
    (marked : Text.holds Route.helperMarker text = true) :
    (disk.processFile config path).2 = .skipped .alreadyUpdated := by
  have bounded : boundedText path config.maxFileSize (Utf8.encode text) = .ok text := by
    rw [boundedText_of_le path _ _ fits, Utf8.decode_encode]
  have read : disk.readBounded path config.maxFileSize = .ok text :=
    (disk.readBounded_eq_ok_iff path _ text).mpr ⟨place, mode, _, standing, readable, bounded⟩
  have excluded : Route.exclusion? (disk.rulePath path) text = some .alreadyUpdated := by
    simp [Route.exclusion?, marked]
  simp only [processFile, read, excluded]

theorem exists_written (real : config.dryRun = false) (disk : Disk) (files : List Path)
    (place : Location) (updates : disk.Updates (disk.processAll config files).2 place) :
    ∃ mode data content, disk.item? place = some (.file mode data) ∧ mode.readable = true ∧
      (∀ path, boundedText path config.maxFileSize data = .ok content) ∧
      ((Utf8.encode (Route.rewritten content)).size < UInt64.size →
        Text.holds Route.helperMarker (Route.rewritten content) = true →
          (disk.processAll config files).1.item? place =
            some (.file mode (Utf8.encode (Route.rewritten content)))) := by
  induction files generalizing disk with
  | nil => simp [processAll, Updates] at updates
  | cons path later ih =>
    have same := disk.outline_processFile config path
    simp only [processAll, updates_cons] at updates ⊢
    by_cases here : (∃ missing, (disk.processFile config path).2 = .updated missing) ∧
        disk.locate true path = .ok place
    · obtain ⟨⟨missing, updated⟩, located⟩ := here
      rcases disk.processFile_cases config path with
        ⟨outcome, left, never⟩ | ⟨other, mode, data, content, result, standing, rewritable, -, done⟩
      · rw [left] at updated
        exact absurd updated (never missing)
      · obtain ⟨standsAt, held⟩ := locate_of_status standing
        cases located.symm.trans standsAt
        obtain ⟨_, _, _, standing', readable, bounded⟩ := rewritable.standing
        cases standing.symm.trans standing'
        obtain ⟨rfl, -⟩ := (Route.rewrite?_eq_some_iff content result).mp rewritable.changed
        refine ⟨mode, data, content, held, readable, boundedText_other bounded, ?_⟩
        intro storable marked
        have written : (disk.processFile config path).1.item? place =
            some (.file mode (Utf8.encode (Route.rewritten content))) := by
          simp [done, real, item?_setData, held, Item.withData]
        rw [item?_of_settled config _ later place
          (settled_of_marked config _ later place mode _ written storable marked), written]
    · have held : (disk.processFile config path).1.item? place = disk.item? place :=
        disk.item?_processFile config path place fun updated located => here ⟨updated, located⟩
      rw [← held]
      exact ih _ ((updates_congr same _ _).mpr (updates.resolve_left here))

theorem turns_processAll (disk : Disk) (files : List Path) :
    List.Forall₂ (fun path entry => entry.path = path ∧
        entry.displayPath = Path.displayFrom config.root path ∧
        ∀ place, disk.locate true path = .ok place → disk.Settled config files place →
          entry.outcome = (disk.processFile config path).2)
      files (disk.processAll config files).2 := by
  induction files generalizing disk with
  | nil => exact .nil
  | cons path later ih =>
    have same := disk.outline_processFile config path
    refine .cons ⟨rfl, rfl, fun _ _ _ => rfl⟩ ((ih (disk.processFile config path).1).imp ?_)
    rintro other entry ⟨shown, display, outcome⟩
    refine ⟨shown, display, ?_⟩
    intro place located settled
    obtain ⟨first, rest⟩ := (settled_cons config disk path later place).mp settled
    have held : (disk.processFile config path).1.item? place = disk.item? place :=
      disk.item?_processFile config path place fun updated located => first ⟨updated, located⟩
    have restSettled := (settled_congr config same later place held).mpr rest
    rw [outcome place (by rwa [locate_congr same]) restSettled]
    apply processFile_congr same
    intro reached reachedFrom
    rw [locate_congr same, located] at reachedFrom
    cases reachedFrom
    exact held

end Disk

theorem forall₂_meet {A B C : Type} {left : A → B → Prop} {right : A → C → Prop} {shared : List A}
    {lefts : List B} {rights : List C} (leftRelated : List.Forall₂ left shared lefts)
    (rightRelated : List.Forall₂ right shared rights) :
    List.Forall₂ (fun b c => b ∈ lefts ∧ ∃ a, left a b ∧ right a c) lefts rights := by
  induction leftRelated generalizing rights with
  | nil =>
    cases rightRelated
    exact .nil
  | cons first _ ih =>
    cases rightRelated with
    | cons second rest =>
      refine .cons ⟨by simp, _, first, second⟩ ((ih rest).imp ?_)
      rintro b c ⟨member, related⟩
      exact ⟨List.mem_cons_of_mem _ member, related⟩

namespace Disk

-- The length of what a run writes is a 64-bit word too.
def RewritesStorable (config : Config) (disk : Disk) : Prop :=
  ∀ path content, disk.readBounded path config.maxFileSize = .ok content →
    (Utf8.encode (Route.rewritten content)).size < UInt64.size

def Before (config : Config) (disk : Disk) (entry : Entry) (content : Text) : Prop :=
  (∃ missing, entry.outcome = .updated missing) ∧
    disk.readBounded entry.path config.maxFileSize = .ok content

structure Recognises (config : Config) (disk : Disk) (before after : Entry) : Prop where
  path : after.path = before.path
  displayPath : after.displayPath = before.displayPath
  updated : (∃ missing, before.outcome = .updated missing) →
    ∃ content, disk.Before config before content ∧
      (Text.holds Route.helperMarker (Route.rewritten content) = true ∨
        Route.rewritten content = Route.stripCookieFields content) ∧
      (Text.holds Route.helperMarker (Route.rewritten content) = true →
        (Utf8.encode (Route.rewritten content)).size ≤ config.maxFileSize.toNat →
          after.outcome = .skipped .alreadyUpdated)

variable (config : Config)

theorem exists_before (real : config.dryRun = false) (disk : Disk) (files : List Path)
    (entry : Entry) (member : entry ∈ (disk.processAll config files).2)
    (updated : ∃ missing, entry.outcome = .updated missing) :
    ∃ place mode data content, disk.status entry.path = .ok (place, .file mode data) ∧
      mode.readable = true ∧ disk.Before config entry content ∧
      ((Utf8.encode (Route.rewritten content)).size < UInt64.size →
        Text.holds Route.helperMarker (Route.rewritten content) = true →
          (disk.processAll config files).1.item? place =
            some (.file mode (Utf8.encode (Route.rewritten content)))) := by
  obtain ⟨missing, outcome⟩ := updated
  obtain ⟨place, mode, data, standing, -⟩ :=
    standing_of_updated config disk files entry member missing outcome
  obtain ⟨located, held⟩ := locate_of_status standing
  obtain ⟨_, _, content, held', readable, bounded, written⟩ :=
    exists_written config real disk files place ⟨entry, member, ⟨missing, outcome⟩, located⟩
  cases held.symm.trans held'
  have read := (disk.readBounded_eq_ok_iff entry.path _ content).mpr
    ⟨place, mode, data, standing, readable, bounded entry.path⟩
  exact ⟨place, mode, data, content, standing, readable, ⟨⟨missing, outcome⟩, read⟩, written⟩

theorem recognises_processAll (real : config.dryRun = false) (disk : Disk) (files : List Path) :
    List.Forall₂ (disk.Recognises config) (disk.processAll config files).2
      ((disk.processAll config files).1.processAll config files).2 := by
  have same := outline_processAll config disk files
  refine (forall₂_meet (turns_processAll config disk files)
    (turns_processAll config (disk.processAll config files).1 files)).imp ?_
  rintro before after ⟨member, path, ⟨rfl, display, -⟩, path', display', outcome⟩
  refine ⟨path', by rw [display', display], ?_⟩
  intro updated
  obtain ⟨place, mode, data, content, standing, readable, old, written⟩ :=
    exists_before config real disk files before member updated
  refine ⟨content, old, Route.marked_or_stripped content, ?_⟩
  intro marked fits
  have storable : (Utf8.encode (Route.rewritten content)).size < UInt64.size :=
    Nat.lt_of_le_of_lt fits config.maxFileSize.toNat_lt_size
  have held := written storable marked
  have located : (disk.processAll config files).1.locate true before.path = .ok place := by
    rw [locate_congr same]
    exact (locate_of_status standing).1
  have settled := settled_of_marked config _ files place mode _ held storable marked
  rw [outcome place located settled]
  exact processFile_marked config _ before.path place mode _ (status_of_locate located held)
    readable fits marked

theorem before_of_changed (real : config.dryRun = false) (disk : Disk)
    (storable : disk.RewritesStorable config) (files : List Path) (place : Location)
    (changed : ((disk.processAll config files).1.processAll config files).1.item? place ≠
      (disk.processAll config files).1.item? place) :
    ∃ entry ∈ (disk.processAll config files).2, ∃ mode data content,
      disk.status entry.path = .ok (place, .file mode data) ∧ disk.Before config entry content ∧
      Text.holds Route.helperMarker (Route.rewritten content) = false ∧
      Route.rewritten content = Route.stripCookieFields content := by
  have same := outline_processAll config disk files
  have unsettled : ¬ (disk.processAll config files).1.Settled config files place :=
    fun settled => changed (item?_of_settled config _ files place settled)
  have updates : disk.Updates (disk.processAll config files).2 place := by
    by_contra never
    have settled := (settled_iff config disk files place).mpr never
    have held := item?_of_settled config disk files place settled
    exact unsettled ((settled_congr config same files place held).mpr settled)
  obtain ⟨entry, member, updated, located⟩ := updates
  obtain ⟨_, mode, data, content, standing, -, old, written⟩ :=
    exists_before config real disk files entry member updated
  cases located.symm.trans (locate_of_status standing).1
  have unmarked : Text.holds Route.helperMarker (Route.rewritten content) = false := by
    by_contra marked
    rw [Bool.not_eq_false] at marked
    have short := storable entry.path content old.2
    have held := written short marked
    exact unsettled (settled_of_marked config _ files place mode _ held short marked)
  refine ⟨entry, member, mode, data, content, standing, old, unmarked, ?_⟩
  exact (Route.marked_or_stripped content).resolve_left (by simp [unmarked])

theorem second_run (disk : Disk) (real : config.dryRun = false)
    (storable : disk.RewritesStorable config) (first : Progress)
    (ran : disk.migrate config = .ok first) :
    ∃ second, first.disk.migrate config = .ok second ∧
      List.Forall₂ (disk.Recognises config) first.report.entries second.report.entries ∧
      ∀ place, second.disk.item? place ≠ first.disk.item? place →
        ∃ entry ∈ first.report.entries, ∃ mode data content,
          disk.status entry.path = .ok (place, .file mode data) ∧
          disk.Before config entry content ∧
          Text.holds Route.helperMarker (Route.rewritten content) = false ∧
          Route.rewritten content = Route.stripCookieFields content := by
  obtain ⟨patterns, valid, after, entries⟩ := disk.migrate_eq_ok config first ran
  have same : first.disk.outline = disk.outline := by rw [after, outline_processAll]
  have validAgain : config.validate first.disk = .ok patterns := by
    rw [Config.validate_congr same, valid]
  obtain ⟨second, ranAgain⟩ := migrate_of_valid config first.disk patterns validAgain
  obtain ⟨_, valid', after', entries'⟩ := first.disk.migrate_eq_ok config second ranAgain
  cases validAgain.symm.trans valid'
  rw [discover_congr same, after] at after' entries'
  refine ⟨second, ranAgain, ?_, ?_⟩
  · rw [entries, entries']
    refine List.rel_append (List.forall₂_same.mpr ?_) (recognises_processAll config real disk _)
    intro entry member
    obtain ⟨error, -, rfl⟩ := List.mem_map.mp member
    exact ⟨rfl, rfl, by simp [Config.entryFor]⟩
  · intro place changed
    rw [after, after'] at changed
    obtain ⟨entry, member, found⟩ := before_of_changed config real disk storable _ place changed
    refine ⟨entry, ?_, found⟩
    rw [entries]
    exact List.mem_append_right _ member

def outcomes (progress : Progress) : List Outcome :=
  progress.report.entries.map fun entry => entry.outcome

-- The import makes the first route longer than the limit. In the second one a removed field leaves
-- another field behind, and no marker.
theorem second_run_unrecognised :
    (∃ first second,
      (ofRoute "import x\nfetch(u)".toList).migrate
        { root := Path.ofText "api".toList, maxFileSize := 17 } = .ok first ∧
      first.disk.migrate { root := Path.ofText "api".toList, maxFileSize := 17 } = .ok second ∧
      outcomes first = [.updated false] ∧
      outcomes second = [.errored (tooLargeFailure (Path.ofText "api/route.ts".toList) 17)]) ∧
    (∃ first second,
      (ofRoute "fetch(\x7b A: b, Cookie: cookie, Cookie: cookieHeaderHeader \x7d)".toList).migrate
        { root := Path.ofText "api".toList } = .ok first ∧
      first.disk.migrate { root := Path.ofText "api".toList } = .ok second ∧
      outcomes first = [.updated false] ∧ outcomes second = [.updated false] ∧
      second.disk.item? (placeOf ["api", "route.ts"]) ≠
        first.disk.item? (placeOf ["api", "route.ts"])) := by
  refine ⟨⟨_, _, rfl, rfl, ?_⟩, ⟨_, _, rfl, rfl, ?_⟩⟩
  · decide +kernel
  · decide +kernel

theorem readBounded_ofRoute (text : Text) (path : Path) (limit : UInt64) (content : Text)
    (fits : (Utf8.encode text).size ≤ limit.toNat)
    (read : (ofRoute text).readBounded path limit = .ok content) : content = text := by
  obtain ⟨place, mode, data, standing, -, bounded⟩ :=
    ((ofRoute text).readBounded_eq_ok_iff path limit content).mp read
  have held : (ofRoute text).items.lookup place = some (.file mode data) :=
    (locate_of_status standing).2
  obtain ⟨before, after, items, -⟩ := List.lookup_eq_some_iff.mp held
  have member : (place, Item.file mode data) ∈ (ofRoute text).items := by simp [items]
  simp only [ofRoute, List.mem_cons, Prod.mk.injEq, Item.file.injEq, List.not_mem_nil, or_false,
    reduceCtorEq, and_false, false_or] at member
  obtain ⟨-, -, rfl⟩ := member
  rw [boundedText_of_le path limit _ fits, Utf8.decode_encode] at bounded
  cases bounded
  rfl

theorem second_run_importing :
    importing.RewritesStorable { root := Path.ofText "api".toList } ∧
      ∃ first second, importing.migrate { root := Path.ofText "api".toList } = .ok first ∧
        outcomes first = [.updated false] ∧
        first.disk.migrate { root := Path.ofText "api".toList } = .ok second ∧
        List.Forall₂ (importing.Recognises { root := Path.ofText "api".toList })
          first.report.entries second.report.entries := by
  have storable : importing.RewritesStorable { root := Path.ofText "api".toList } := by
    intro path content read
    rw [readBounded_ofRoute "import x\nfetch(u)".toList path _ content (by decide +kernel) read]
    decide +kernel
  obtain ⟨first, ran⟩ :=
    migrate_of_valid { root := Path.ofText "api".toList } importing [] (by rfl)
  obtain ⟨second, again, recognised, -⟩ :=
    second_run { root := Path.ofText "api".toList } importing rfl storable first ran
  refine ⟨storable, first, second, ran, ?_, again, recognised⟩
  cases ran
  decide +kernel

end Disk

end RouteMigration
