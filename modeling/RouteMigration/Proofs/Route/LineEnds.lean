import RouteMigration.Proofs.Route.LastingChanges
import RouteMigration.Proofs.Text.Joining

set_option autoImplicit false

namespace RouteMigration

namespace Text

def Paired (text : Text) : Prop :=
  ∀ before after, text = before ++ '\n' :: after → before.getLast? = some '\r'

def pairedBehind (prior : Option Char) : Text → Bool
  | [] => true
  | c :: rest => (c != '\n' || prior == some '\r') && pairedBehind (some c) rest

theorem pairedBehind_append (prior : Option Char) (first second : Text) :
    pairedBehind prior (first ++ second) =
      (pairedBehind prior first && pairedBehind (first.getLast?.or prior) second) := by
  induction first generalizing prior with
  | nil => rfl
  | cons c rest ih =>
    rw [List.cons_append, pairedBehind, pairedBehind, ih, Bool.and_assoc, List.getLast?_cons]
    cases rest.getLast? <;> rfl

theorem pairedBehind_iff (prior : Option Char) (text : Text) : pairedBehind prior text = true ↔
    ∀ before after, text = before ++ '\n' :: after → before.getLast?.or prior = some '\r' := by
  constructor
  · rintro paired before after rfl
    simp only [pairedBehind_append, pairedBehind, Bool.and_eq_true] at paired
    simpa using paired.2.1
  · intro paired
    induction text generalizing prior with
    | nil => rfl
    | cons c rest ih =>
      rw [pairedBehind, Bool.and_eq_true]
      constructor
      · by_cases feed : c = '\n'
        · simpa [feed] using paired [] rest (by rw [feed]; rfl)
        · simp [feed]
      · apply ih
        rintro before after rfl
        have onward := paired (c :: before) after rfl
        rw [List.getLast?_cons] at onward
        cases last : before.getLast? with
        | none => simpa [last] using onward
        | some d => simpa [last] using onward

theorem paired_iff (text : Text) : text.Paired ↔ pairedBehind none text = true := by
  rw [pairedBehind_iff, Paired]
  simp only [Option.or_none]

theorem pairedBehind_mono {prior other : Option Char} (still : prior = some '\r' → other = some '\r')
    (text : Text) (paired : pairedBehind prior text = true) : pairedBehind other text = true := by
  cases text with
  | nil => rfl
  | cons c rest =>
    simp only [pairedBehind, Bool.and_eq_true, Bool.or_eq_true, beq_iff_eq] at paired ⊢
    exact ⟨paired.1.imp_right still, paired.2⟩

end Text

namespace Shape

def closer? : Shape → Option Char
  | [] => none
  | [.literal text] => text.getLast?
  | [.statementEnd] => some ';'
  | [_] => none
  | _ :: later => closer? later

theorem getLast?_of_spells (shape : Shape) (closer : Char) (closes : shape.closer? = some closer)
    (part : Text) (spelled : shape.Spells part) : part.getLast? = some closer := by
  induction shape generalizing part with
  | nil => cases closes
  | cons piece later ih =>
    obtain ⟨head, rest, rfl, headSpelled, restSpelled⟩ := spelled
    cases later with
    | cons next later =>
      have onward : closer? (next :: later) = some closer := by
        cases piece <;> simpa [closer?] using closes
      rw [List.getLast?_append, ih onward rest restSpelled]
      rfl
    | nil =>
      obtain rfl : rest = [] := restSpelled
      rw [List.append_nil]
      cases piece with
      | literal text =>
        obtain rfl : head = text := headSpelled
        exact closes
      | statementEnd =>
        cases closes
        obtain ⟨lead, rfl, -⟩ := headSpelled
        simp
      | quoteMark | blanks => cases closes

end Shape

theorem pairedBehind_rewritten (replacement : Text)
    (own : Text.pairedBehind none replacement = true) (segments : List Segment)
    (closed : ∀ part, .found part ∈ segments → ∃ c, part.getLast? = some c ∧ c ≠ '\r')
    (prior other : Option Char) (still : prior = some '\r' → other = some '\r')
    (paired : Text.pairedBehind prior (segments.flatMap Segment.source) = true) :
    Text.pairedBehind other (segments.flatMap (Segment.rewritten replacement)) = true := by
  induction segments generalizing prior other with
  | nil => rfl
  | cons segment later ih =>
    have closedLater := fun part member => closed part (List.mem_cons_of_mem _ member)
    rw [List.flatMap_cons, Text.pairedBehind_append, Bool.and_eq_true] at paired ⊢
    cases segment with
    | kept c => exact ⟨Text.pairedBehind_mono still [c] paired.1, ih closedLater _ _ id paired.2⟩
    | found part =>
      obtain ⟨c, last, plain⟩ := closed part (by simp)
      refine ⟨Text.pairedBehind_mono (by simp) replacement own,
        ih closedLater (some c) _ (fun same => absurd (Option.some.inj same) plain) ?_⟩
      simpa [Segment.source, last] using paired.2

theorem paired_replaceAll (shape : Shape) (closer : Char) (closes : shape.closer? = some closer)
    (plain : closer ≠ '\r') (replacement : Text) (own : Text.pairedBehind none replacement = true)
    (text : Text) (paired : text.Paired) : (shape.replaceAll replacement text).Paired := by
  rw [Text.paired_iff] at paired ⊢
  rw [← shape.source_segments text] at paired
  apply pairedBehind_rewritten replacement own _ _ none none id paired
  intro part member
  exact ⟨closer, shape.getLast?_of_spells closer closes part (shape.spells_of_found text part member),
    plain⟩

namespace Route

theorem exists_closer (rule : Rule) :
    ∃ closer, rule.shape.closer? = some closer ∧ closer ≠ '\r' := by
  cases rule with
  | cookieExtraction => exact ⟨';', by decide, by decide⟩
  | cookieHeaders | jsonHeaders => exact ⟨'\x7d', by decide, by decide⟩
  | cookieField => exact ⟨'r', by decide, by decide⟩

theorem pairedBehind_replacement (rule : Rule) :
    Text.pairedBehind none rule.replacement = true := by
  cases rule <;> decide +kernel

def unpairedImport : Text :=
  '\n' :: (helperImportLine ++ ['\r'])

/-- The line that the import goes after is the last one, and nothing ends it. -/
def ImportsLast (content : Text) : Prop :=
  ¬ helperImportSource <:+: content ∧ ¬ frameworkImportPrefix <:+: content ∧
    ∃ before last, split '\n' content = before ++ [last] ∧
      (∀ line ∈ before, isImportLine line = false) ∧ isImportLine last = true ∧
      last.getLast? ≠ some '\r'

theorem paired_inserted (head tail : Text) (final : head.getLast? = some '\r')
    (paired : (head ++ tail).Paired) : (head ++ (unpairedImport ++ tail)).Paired := by
  have own : Text.pairedBehind (some '\r') unpairedImport = true := by decide +kernel
  have ends : unpairedImport.getLast? = some '\r' := by decide +kernel
  rw [Text.paired_iff, Text.pairedBehind_append, Bool.and_eq_true] at paired
  rw [Text.paired_iff, Text.pairedBehind_append, Text.pairedBehind_append, final, ends]
  simp only [final, Option.some_or] at paired ⊢
  simp only [paired.1, own, paired.2, Bool.and_self]

theorem filled_of_isImportLine (line : Text) (imports : isImportLine line = true) : line ≠ [] := by
  rintro rfl
  cases imports

theorem paired_injectImport (content : Text) (paired : content.Paired)
    (returns : carriageReturnLineFeed <:+: content) (ended : ¬ ImportsLast content) :
    (injectImport content).Paired := by
  have held := (Text.holds_iff _ _).mpr returns
  have placed := injectImport_placed content
  generalize injectImport content = result at placed ⊢
  cases placed with
  | present => exact paired
  | nowhere => exact paired
  | framework =>
    apply paired_replaceAll _ ';' (by decide) (by decide) _ _ content paired
    rw [lineBreak, if_pos held]
    decide +kernel
  | afterLine unsourced unanchored before first later lines plain imports =>
    have source := join_split '\n' content
    rw [lines, List.append_cons] at source
    rw [importLineFor, if_pos held, List.append_cons, join_append '\n' _ _ (by simp) (by simp)]
    cases later with
    | cons next later =>
      rw [join_append '\n' _ _ (by simp) (by simp)] at source
      have final : (join '\n' (before ++ [first])).getLast? = some '\r' := paired _ _ source.symm
      rw [join_cons_cons]
      rw [← source] at paired
      simpa [unpairedImport] using paired_inserted _ _ final paired
    | nil =>
      rw [List.append_nil] at source
      have final : content.getLast? = some '\r' := by
        rw [← source, getLast?_join '\n' before first (filled_of_isImportLine first imports)]
        by_contra unended
        exact ended ⟨unsourced, unanchored, before, first, lines, plain, imports, unended⟩
      have inserted := paired_inserted content [] final (by rwa [List.append_nil])
      rw [source]
      simpa [unpairedImport, join, List.intercalate] using inserted

theorem afterFirstImport_append (inserted : Text) (before : List Text) (first : Text)
    (later : List Text) (plain : ∀ line ∈ before, isImportLine line = false)
    (imports : isImportLine first = true) :
    afterFirstImport inserted (before ++ first :: later) = before ++ first :: inserted :: later := by
  have passed : ∀ line ∈ before, (!isImportLine line) = true := by
    intro line member
    rw [plain line member]
    rfl
  rw [afterFirstImport, List.span_eq_takeWhile_dropWhile, List.takeWhile_append_of_pos passed,
    List.dropWhile_append_of_pos passed]
  simp [imports]

theorem injectImport_of_importsLast (content : Text)
    (returns : carriageReturnLineFeed <:+: content) (last : ImportsLast content) :
    injectImport content = content ++ unpairedImport := by
  obtain ⟨unsourced, unanchored, before, line, lines, plain, imports, -⟩ := last
  have held := (Text.holds_iff _ _).mpr returns
  rw [← Text.holds_iff] at unsourced unanchored
  have source := join_split '\n' content
  rw [injectImport, if_neg unsourced, if_neg unanchored, lines,
    afterFirstImport_append _ _ _ _ plain imports, List.append_cons,
    join_append '\n' _ _ (by simp) (by simp), ← lines, source, importLineFor, if_pos held]
  simp [unpairedImport, join, List.intercalate]

/-- Whether the only line feed that may stand alone is the one before an import at the end. -/
def PairedButLast (text : Text) : Prop :=
  ∃ lead, text = lead ++ unpairedImport ∧ lead.Paired

theorem paired_rule (rule : Rule) (text : Text) (paired : text.Paired) :
    (rule.shape.replaceAll rule.replacement text).Paired := by
  obtain ⟨closer, closes, plain⟩ := exists_closer rule
  exact paired_replaceAll rule.shape closer closes plain _ (pairedBehind_replacement rule) text paired

theorem pairedButLast_rule (rule : Rule) (text : Text) (paired : PairedButLast text) :
    PairedButLast (rule.shape.replaceAll rule.replacement text) := by
  obtain ⟨lead, rfl, paired⟩ := paired
  obtain ⟨closer, closes, plain⟩ := exists_closer rule
  have avoided : rule.shape.avoids unpairedImport = true :=
    avoids_import rule (['\n'], ['\r']) (by simp [Edit.importForms])
  obtain ⟨first, segments⟩ := rule.shape.exists_segments_of_avoids unpairedImport avoided lead []
  rw [List.append_nil, Shape.segments_nil, List.append_nil] at segments
  have source : first.flatMap Segment.source = lead := by
    have whole := rule.shape.source_segments (lead ++ unpairedImport)
    rw [segments, List.flatMap_append, Segment.source_kept] at whole
    exact List.append_cancel_right whole
  refine ⟨first.flatMap (Segment.rewritten rule.replacement), ?_, ?_⟩
  · rw [Shape.replaceAll, segments, List.flatMap_append, Segment.rewritten_kept]
  · rw [Text.paired_iff] at paired ⊢
    rw [← source] at paired
    apply pairedBehind_rewritten _ (pairedBehind_replacement rule) first _ none none id paired
    intro part member
    have spelled := rule.shape.spells_of_found (lead ++ unpairedImport) part
      (by rw [segments]; exact List.mem_append_left _ member)
    exact ⟨closer, rule.shape.getLast?_of_spells closer closes part spelled, plain⟩

theorem line_ends_kept (content result : Text) (paired : content.Paired)
    (returns : carriageReturnLineFeed <:+: content) (changed : rewrite? content = some result) :
    (¬ ImportsLast content → result.Paired) ∧ (ImportsLast content → PairedButLast result) := by
  obtain ⟨rfl, -⟩ := (rewrite?_eq_some_iff content result).mp changed
  constructor
  · intro ended
    exact rewritten_kept Text.Paired paired_rule content
      (paired_injectImport content paired returns ended)
  · intro last
    apply rewritten_kept PairedButLast pairedButLast_rule content
    exact ⟨content, injectImport_of_importsLast content returns last, paired⟩

def returningRoute : Text :=
  "import x\r\nfetch(u, \x7b A: b,\r\n Cookie: cookieHeader \x7d);\r\n".toList

theorem line_ends_kept_returningRoute : returningRoute.Paired ∧
    carriageReturnLineFeed <:+: returningRoute ∧ ¬ ImportsLast returningRoute ∧
    ∃ result, rewrite? returningRoute = some result ∧ result.Paired := by
  have paired : returningRoute.Paired := (Text.paired_iff _).mpr (by decide +kernel)
  have returns : carriageReturnLineFeed <:+: returningRoute :=
    (Text.holds_iff _ _).mp (by decide +kernel)
  have ended : ¬ ImportsLast returningRoute := by
    rintro ⟨-, -, before, last, lines, plain, imports, -⟩
    have final : (split '\n' returningRoute).getLast? = some [] := by decide +kernel
    rw [lines, List.getLast?_concat] at final
    obtain rfl := Option.some.inj final
    cases imports
  have changed : rewrite? returningRoute = some (rewritten returningRoute) :=
    (rewrite?_eq_some_iff _ _).mpr ⟨rfl, by decide +kernel⟩
  exact ⟨paired, returns, ended, _, changed,
    (line_ends_kept returningRoute _ paired returns changed).1 ended⟩

theorem unpaired_line_feed : ∃ result,
    Text.Paired "fetch(u);\r\nimport x".toList ∧
      carriageReturnLineFeed <:+: "fetch(u);\r\nimport x".toList ∧
      rewrite? "fetch(u);\r\nimport x".toList = some result ∧ ¬ result.Paired := by
  refine ⟨"fetch(u);\r\nimport x\nimport \x7b buildBFFHeaders \x7d from \"@/lib/bffHelpers\";\r".toList,
    ?_, ?_, ?_, ?_⟩
  · rw [Text.paired_iff]
    decide +kernel
  · rw [← Text.holds_iff]
    decide +kernel
  · decide +kernel
  · rw [Text.paired_iff]
    decide +kernel

end Route

end RouteMigration
