/-
# What an ignore without wildcards hides

An ignore without wildcards covers the paths whose components start with its own, and
what is found from a root has the components of the root and names behind them
(`Disk.components_joinNames`). So the sources at or below its place are hidden from a
root exactly if one of the two is spelled as a part of the other, the ignore with
names behind the root at most (`Scan.hides_iff`). This is so for relative includes
and ignores without `..` and wildcards (`Scan.hides_of_relative`), but a search for
a pattern drops a `.` in front that the ignore keeps (`Scan.not_hides_pattern`).

Key definitions: `Path.inner`, `ScanOptions.without`, `Scan.Hides`, `Scan.InLine`.
Key theorems: `Path.components_join_relative`, `Scan.inLine_iff`, `Scan.hides_iff`.
-/
import FetchClients.Proofs.Resolving
import FetchClients.Proofs.Untouched

namespace FetchClients

namespace Path

/-- The steps that a relative path takes from another. -/
def inner (q : Path) : List Component :=
  fieldComponents false q.body.2

/-- A relative path adds its steps to the components of another; a `.` in front of it is none. -/
theorem components_join_relative {p q : Path} (hne : p.text ≠ "") (h : q.isAbsolute = false) :
    (p.join q).components = p.components ++ q.inner := by
  obtain ⟨kept, hbody, hkept⟩ := body_join_relative p h
  have habs : (p.join q).isAbsolute = p.isAbsolute := by rw [isAbsolute, hbody]
  -- the fields of `q` do not open the path
  have hopening : (!p.isAbsolute && kept.isEmpty) = false := by
    cases hp : p.isAbsolute with
    | true => rfl
    | false =>
      cases kept with
      | nil => exact absurd hkept.symm (steps_ne_nil hp hne)
      | cons f fs => rfl
  have hsteps : (p.join q).steps = p.steps ++ q.inner := by
    rw [steps_eq, hbody, fieldComponents_append, hkept, hopening, inner]
  rw [components_eq, habs, hsteps, ← List.append_assoc, ← components_eq]

theorem isComponentPrefix_iff {p q : Path} :
    p.isComponentPrefix q = true ↔ p.components <+: q.components :=
  List.isPrefixOf_iff_prefix

/-- The steps of a relative path that does not climb are names. -/
theorem inner_of_not_climbs {q : Path} (hup : .up ∉ q.inner) :
    ∃ names : List String, q.inner = names.map .name := by
  refine exists_map_name (fun hroot => ?_) hup (here_not_mem_fieldComponents _)
  obtain ⟨f, -, -, heq⟩ := mem_fieldComponents hroot
  exact componentOf_ne_root f heq.symm

end Path

/-- The options of a scan without one of the ignores. -/
def ScanOptions.without (options : ScanOptions) (text : String) : ScanOptions :=
  { options with ignores := options.ignores.filter (· ≠ text) }

/-- What is covered is covered by one ignore without wildcards or by the others. -/
theorem Ignores.covers_ofOptions_iff {base p : Path} {options : ScanOptions} {text : String}
    (htext : text ∈ options.ignores) (hglob : Glob.isGlob text = false) :
    (ofOptions base options).covers p = true ↔ (base.join ⟨text⟩).components <+: p.components ∨
      (ofOptions base (options.without text)).covers p = true := by
  have hpatterns : (options.without text).ignores.filter Glob.isGlob =
      options.ignores.filter Glob.isGlob := by
    rw [ScanOptions.without, List.filter_filter]
    refine List.filter_congr fun other _ => ?_
    by_cases heq : other = text <;> simp [heq, hglob]
  have hpaths : ∀ q, q ∈ (ofOptions base options).paths ↔
      q = base.join ⟨text⟩ ∨ q ∈ (ofOptions base (options.without text)).paths := by
    intro q
    simp only [ofOptions, ScanOptions.without, List.mem_map, List.mem_filter, Bool.not_eq_true',
      decide_eq_true_eq]
    constructor
    · rintro ⟨other, ⟨hmem, hother⟩, rfl⟩
      by_cases heq : other = text
      · exact .inl (by rw [heq])
      · exact .inr ⟨other, ⟨⟨hmem, heq⟩, hother⟩, rfl⟩
    · rintro (rfl | ⟨other, ⟨⟨hmem, -⟩, hother⟩, rfl⟩)
      · exact ⟨text, ⟨htext, hglob⟩, rfl⟩
      · exact ⟨other, ⟨hmem, hother⟩, rfl⟩
  have hsame : (ofOptions base options).patterns =
      (ofOptions base (options.without text)).patterns := by
    unfold ofOptions
    rw [hpatterns]
    rfl
  unfold covers
  rw [hsame]
  simp only [Bool.or_eq_true, List.any_eq_true, hpaths, Path.isComponentPrefix_iff, or_and_right,
    exists_or, exists_eq_left, or_assoc]

namespace Scan

/-- Whether no source of a scan lies at a place or below it. -/
def Hides (d : Disk) (scan : Scan) (place : Location) : Prop :=
  ∀ source ∈ places d scan, ¬ place <+: source

/-- Whether an ignored path is spelled as a part of a root, or as the root with names behind it. -/
def InLine (ignored root : Path) : Prop :=
  ignored.components <+: root.components ∨
    ∃ names : List String, ignored.components = root.components ++ names.map .name

/-- Of what lies at or below the place of an ignored path, an ignored path in line with the root
covers all that is found from the root, and any other nothing. -/
theorem inLine_iff {ignored root : Path} {cwd : Path} {names : List String}
    (hnames : ∀ n ∈ names, ProperName n)
    (hbelow : ignored.locationFrom cwd <+: (Disk.joinNames root names).locationFrom cwd) :
    ignored.components <+: (Disk.joinNames root names).components ↔ InLine ignored root := by
  have hcomponents := Disk.components_joinNames root hnames
  constructor
  · intro hopens
    rw [hcomponents] at hopens
    rcases List.prefix_or_prefix_of_prefix hopens (List.prefix_append root.components _) with
      hopens | ⟨more, hmore⟩
    · exact .inl hopens
    · rw [← hmore] at hopens
      obtain ⟨rest, hrest⟩ := (List.prefix_append_right_inj _).mp hopens
      obtain ⟨between, -, -, hbetween, -⟩ := List.map_eq_append_iff.mp hrest.symm
      exact .inr ⟨between, by rw [← hmore, hbetween]⟩
  · rintro (hopens | ⟨between, hbetween⟩)
    · rw [hcomponents]
      exact hopens.trans (List.prefix_append _ _)
    · rw [Path.locationFrom_append cwd hbetween, Disk.locationFrom_joinNames cwd root hnames,
        List.prefix_append_right_inj] at hbelow
      rw [hcomponents, hbetween, List.prefix_append_right_inj]
      exact hbelow.map _

theorem mem_sourcesBelow_iff {d : Disk} {base root p : Path} {options : ScanOptions} {text : String}
    (htext : text ∈ options.ignores) (hglob : Glob.isGlob text = false) :
    p ∈ sourcesBelow d (.ofOptions base options) root ↔
      p ∈ sourcesBelow d (.ofOptions base (options.without text)) root ∧
        ¬ (base.join ⟨text⟩).components <+: p.components := by
  have hcovers := @Ignores.covers_ofOptions_iff base p options text htext hglob
  unfold sourcesBelow
  rw [List.mem_filter, List.mem_filter, and_assoc]
  refine and_congr_right fun _ => ?_
  unfold isSource
  simp only [Bool.and_eq_true, Bool.not_eq_true', ← Bool.not_eq_true, hcovers, not_or]
  tauto

theorem mem_places_iff {d : Disk} {base : Path} {options : ScanOptions} {source : Location} :
    source ∈ places d (run d base options) ↔
      ∃ root ∈ roots d base options.includes, ∃ p ∈ sourcesBelow d (.ofOptions base options) root,
        p.locationFrom (.ofLocation d.cwd) = source := by
  unfold places
  rw [List.mem_map]
  constructor
  · rintro ⟨text, htext, rfl⟩
    obtain ⟨root, hroot, hp⟩ := mem_files_iff_sourcesBelow.mp htext
    exact ⟨root, hroot, _, hp, rfl⟩
  · rintro ⟨root, hroot, p, hp, rfl⟩
    exact ⟨p.text, mem_files_iff_sourcesBelow.mpr ⟨root, hroot, hp⟩, rfl⟩

section Tree

variable {d : Disk} (h : d.IsTree) {base : Path} {options : ScanOptions} {text : String}
  {place : Location} (htext : text ∈ options.ignores) (hglob : Glob.isGlob text = false)
  (hplace : d.locate true (base.join ⟨text⟩) = .ok place)
include h htext hglob hplace

/-- From a root that is in line with an ignore no source at its place is found. -/
theorem hides_of_inLine
    (hroots : ∀ root ∈ roots d base options.includes,
      (∃ p ∈ sourcesBelow d (.ofOptions base (options.without text)) root,
        place <+: p.locationFrom (.ofLocation d.cwd)) → InLine (base.join ⟨text⟩) root) :
    Hides d (run d base options) place := by
  intro source hsource hbelow
  obtain ⟨root, hroot, p, hp, rfl⟩ := mem_places_iff.mp hsource
  obtain ⟨hp, hopens⟩ := (mem_sourcesBelow_iff htext hglob).mp hp
  obtain ⟨names, hnames, rfl, -⟩ := Disk.exists_of_mem_walk h (List.mem_filter.mp hp).1
  have hline := hroots root hroot ⟨_, hp, hbelow⟩
  rw [← Disk.locationFrom_of_locate h hplace] at hbelow
  exact hopens ((inLine_iff hnames hbelow).mpr hline)

/-- A root from which a source at the place of an ignore would be found is in line with the ignore if
none is. -/
theorem inLine_of_hides (hhides : Hides d (run d base options) place) {root : Path}
    (hroot : root ∈ roots d base options.includes)
    (hthere : ∃ p ∈ sourcesBelow d (.ofOptions base (options.without text)) root,
      place <+: p.locationFrom (.ofLocation d.cwd)) : InLine (base.join ⟨text⟩) root := by
  obtain ⟨p, hp, hbelow⟩ := hthere
  obtain ⟨names, hnames, rfl, -⟩ := Disk.exists_of_mem_walk h (List.mem_filter.mp hp).1
  have hopens : (base.join ⟨text⟩).components <+: (Disk.joinNames root names).components := by
    by_contra hnot
    exact hhides _ (mem_places_iff.mpr
      ⟨root, hroot, _, (mem_sourcesBelow_iff htext hglob).mpr ⟨hp, hnot⟩, rfl⟩) hbelow
  rw [← Disk.locationFrom_of_locate h hplace] at hbelow
  exact (inLine_iff hnames hbelow).mp hopens

/-- What lies at or below the place of an ignore is hidden exactly if the ignore is in line with
every root from which a source would be found there. -/
theorem hides_iff :
    Hides d (run d base options) place ↔ ∀ root ∈ roots d base options.includes,
      (∃ p ∈ sourcesBelow d (.ofOptions base (options.without text)) root,
        place <+: p.locationFrom (.ofLocation d.cwd)) → InLine (base.join ⟨text⟩) root :=
  ⟨fun hhides _ hroot hthere => inLine_of_hides h htext hglob hplace hhides hroot hthere,
    hides_of_inLine h htext hglob hplace⟩

/-- A relative ignore that does not climb hides its place from the base directory and from
relative includes without wildcards that do not climb either. -/
theorem hides_of_relative (hbase : base.text ≠ "") (hrelative : (Path.mk text).isAbsolute = false)
    (hup : .up ∉ (Path.mk text).inner)
    (hincludes : ∀ other ∈ options.includes, Glob.isGlob other = false ∧
      (Path.mk other).isAbsolute = false ∧ .up ∉ (Path.mk other).inner) :
    Hides d (run d base options) place := by
  refine hides_of_inLine h htext hglob hplace fun root hroot ⟨p, hp, hbelow⟩ => ?_
  obtain ⟨ignored, hignored⟩ := Path.inner_of_not_climbs hup
  have hignoredComponents := Path.components_join_relative hbase hrelative
  rw [hignored] at hignoredComponents
  obtain ⟨included, hincluded⟩ : ∃ included : List String,
      root.components = base.components ++ included.map .name := by
    by_cases hempty : options.includes = []
    · rw [roots, hempty] at hroot
      exact ⟨[], by simp [List.mem_singleton.mp hroot]⟩
    · obtain ⟨other, hother, rfl, -⟩ :=
        (mem_roots_iff hempty fun other hother => (hincludes other hother).1).mp hroot
      obtain ⟨-, hotherRelative, hotherUp⟩ := hincludes other hother
      obtain ⟨included, hincluded⟩ := Path.inner_of_not_climbs hotherUp
      exact ⟨included, by rw [Path.components_join_relative hbase hotherRelative, hincluded]⟩
  obtain ⟨names, -, -, hpPlace⟩ := Disk.exists_of_mem_walk h (List.mem_filter.mp hp).1
  -- of two ways down from the base to one source, one goes on from the other
  rw [← Disk.locationFrom_of_locate h hplace, Path.locationFrom_append _ hignoredComponents, hpPlace,
    Path.locationFrom_append _ hincluded, List.append_assoc, List.prefix_append_right_inj] at hbelow
  rcases List.prefix_or_prefix_of_prefix hbelow (List.prefix_append included names) with
    hopens | ⟨between, rfl⟩
  · refine .inl ?_
    rw [hignoredComponents, hincluded, List.prefix_append_right_inj]
    exact hopens.map _
  · exact .inr ⟨between, by rw [hignoredComponents, hincluded, List.map_append, List.append_assoc]⟩

end Tree

/-- A pattern finds a directory without the `.` in front that the ignored path has. -/
theorem not_hides_pattern : twoSources.IsTree ∧
    twoSources.locate true ((Path.mk ".").join ⟨"src/api"⟩) = .ok ["project", "src", "api"] ∧
      ¬ Hides twoSources (run twoSources ⟨"."⟩ ⟨["src/*"], ["src/api"], false⟩)
        ["project", "src", "api"] := by
  refine ⟨by decide, by decide +kernel, fun hhides => ?_⟩
  have hfound : ["project", "src", "api", "order.ts"] ∈
      places twoSources (run twoSources ⟨"."⟩ ⟨["src/*"], ["src/api"], false⟩) := by
    decide +kernel
  exact hhides _ hfound (by decide)

/-- An ignored directory is hidden from an include that it lies in. -/
theorem hides_below_include : twoSources.IsTree ∧
    twoSources.locate true ((Path.mk ".").join ⟨"src/api"⟩) = .ok ["project", "src", "api"] ∧
      Hides twoSources (run twoSources ⟨"."⟩ ⟨["src"], ["src/api"], false⟩)
        ["project", "src", "api"] := by
  have htree : twoSources.IsTree := by decide
  have hplace : twoSources.locate true ((Path.mk ".").join ⟨"src/api"⟩) =
      .ok ["project", "src", "api"] := by decide +kernel
  refine ⟨htree, hplace, (hides_iff htree (by simp) (by decide) hplace).mpr fun root hroot _ => ?_⟩
  obtain ⟨text, htext, rfl, -⟩ := (mem_roots_iff (by simp) (by decide)).mp hroot
  obtain rfl := List.mem_singleton.mp htext
  exact .inr ⟨["api"], by decide⟩

end Scan
end FetchClients
