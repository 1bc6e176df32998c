import UsdtPir.FileTree
import UsdtPir.Paths
import UsdtPir.QueryEndpoint

/-!
# The files of the portal

The server joins the path of a request to its web directory and reads what is
there.  What it sends is a function of the path and of what is below that
directory, whatever the path is and whatever else there is on the disk, unless
the path runs through a symbolic link.
-/

namespace UsdtPir

open FileTree
open Paths (rsplitAtDot)

def dot : List Char := ['.']

def dots : List Char := ['.', '.']

def indexHtml : List Char := "index.html".toList

def cleanPath (path : List Char) : Option (List Char) :=
  let requested := path.dropWhile (· = '/')
  let requested := if requested = [] then indexHtml else requested
  if (requested.splitOn '/').any fun c => c = dots ∨ c = dot then none
  else some requested

/-- `Path::file_name`. -/
def fileName (path : List Char) : Option (List Char) :=
  match ((path.splitOn '/').filter fun c => c ≠ [] ∧ c ≠ dot).getLast? with
  | some name => if name = dots then none else some name
  | none => none

/-- `Path::extension`. -/
def extension (path : List Char) : Option String :=
  match (fileName path).bind rsplitAtDot with
  | some (before, after) =>
      if before = [] then none else some (String.ofList after)
  | none => none

def mimeOf (path : List Char) : String :=
  match extension path with
  | some "html" => "text/html; charset=utf-8"
  | some "js" => "text/javascript; charset=utf-8"
  | some "wasm" => "application/wasm"
  | some "css" => "text/css; charset=utf-8"
  | some "json" => "application/json"
  | _ => "application/octet-stream"

def serveFile (top cwd : Place) (root uriPath : List Char) : HttpResponse :=
  match cleanPath uriPath with
  | none => .problem 400 "bad path"
  | some requested =>
      let path := FileTree.join root requested
      match FileTree.read top cwd path with
      | some bytes =>
          ⟨200, [(HttpResponse.CONTENT_TYPE, mimeOf path)], .bytes bytes⟩
      | none => .problem 404 "not found"

/-! ## What a directory publishes -/

/-- The names in the path of a request. -/
def requestedNames (uriPath : List Char) : List (List Char) :=
  (uriPath.splitOn '/').filter (· ≠ [])

/-- The names that are sought below the web directory. -/
def soughtNames (uriPath : List Char) : List (List Char) :=
  if requestedNames uriPath = [] then [indexHtml] else requestedNames uriPath

/-- What is sent of a directory: a file that the names lead down to. -/
def published (site : Option Node) (uriPath : List Char) : HttpResponse :=
  let names := requestedNames uriPath
  if dot ∈ names ∨ dots ∈ names then .problem 400 "bad path"
  else if names ≠ [] ∧ uriPath.getLast? = some '/' then
    .problem 404 "not found"
  else
    match site.bind fun node => node.descend (soughtNames uriPath) with
    | some (.file bytes) =>
        ⟨200,
          [(HttpResponse.CONTENT_TYPE, mimeOf ((soughtNames uriPath).getLastD []))],
          .bytes bytes⟩
    | _ => .problem 404 "not found"

/-- What is below the web directory, if it is there. -/
def webSite (top cwd : Place) (root : List Char) : Option Node :=
  (resolve top cwd root).map Place.node

/-- A character that stands for itself in the path of a URI.  A client escapes
any other but the separator, and nothing here decodes an escape. -/
def standsForItself (c : Char) : Bool :=
  c.isAlphanum || "-._~!$&'()*+,;=:@".toList.contains c

section Requests

variable {uriPath requested root path : List Char} {names : List (List Char)}
    {top cwd : Place}

theorem splitOn_dropWhile :
    (((uriPath.dropWhile (· = '/')).splitOn '/').filter (· ≠ [])) =
      requestedNames uriPath := by
  unfold requestedNames
  induction uriPath with
  | nil => rfl
  | cons c rest ih =>
      by_cases hslash : c = '/'
      · subst hslash
        rw [List.dropWhile_cons_of_pos (by simp), ih]
        have hsplit : ('/' :: rest).splitOn '/' = [] :: rest.splitOn '/' :=
          (List.splitOn_append_cons_self [] rest).trans rfl
        rw [hsplit, List.filter_cons_of_neg (by simp)]
      · rw [List.dropWhile_cons_of_neg (by simpa using hslash)]

theorem dropWhile_eq_nil_iff :
    uriPath.dropWhile (· = '/') = [] ↔ requestedNames uriPath = [] := by
  rw [← splitOn_dropWhile]
  constructor
  · intro hnil
    rw [hnil]
    rfl
  · intro hnone
    cases hrest : uriPath.dropWhile (· = '/') with
    | nil => rfl
    | cons c rest =>
        have hslash : c ≠ '/' := by
          have hhead := List.head?_dropWhile_not (· = '/') uriPath
          rw [hrest] at hhead
          simpa using hhead
        rw [hrest, List.splitOn_cons_eq_if_modifyHead,
          if_neg (by simpa using hslash)] at hnone
        obtain ⟨first, others, hsplit⟩ := List.exists_cons_of_ne_nil
          (List.splitOn_ne_nil '/' rest)
        rw [hsplit, List.modifyHead_cons,
          List.filter_cons_of_pos (by simp)] at hnone
        cases hnone

theorem getLast?_splitOn : (path.splitOn '/').getLast? = some [] ↔
    path = [] ∨ path.getLast? = some '/' := by
  induction path with
  | nil => simp
  | cons c rest ih =>
      obtain ⟨first, others, hsplit⟩ := List.exists_cons_of_ne_nil
        (List.splitOn_ne_nil '/' rest)
      rw [List.splitOn_cons_eq_if_modifyHead]
      by_cases hslash : c = '/'
      · subst hslash
        rw [if_pos (by simp), hsplit, List.getLast?_cons_cons, ← hsplit, ih]
        cases rest with
        | nil => simp
        | cons d rest => simp
      · rw [if_neg (by simpa using hslash), hsplit, List.modifyHead_cons]
        cases others with
        | nil =>
            have hrest : rest = first := by
              have hjoined : ['/'].intercalate (rest.splitOn '/') = rest :=
                List.intercalate_splitOn '/'
              rw [hsplit] at hjoined
              simpa using hjoined.symm
            subst hrest
            rw [hsplit] at ih
            cases rest with
            | nil => simpa using hslash
            | cons d rest => simpa using ih
        | cons other others =>
            have hsome : rest ≠ [] := by
              intro hnil
              subst hnil
              simp at hsplit
            rw [List.getLast?_cons_cons]
            rw [hsplit, List.getLast?_cons_cons] at ih
            rw [ih, List.getLast?_cons_of_ne_nil hsome]
            simp [hsome]

theorem slash_not_mem {c : List Char} (hc : c ∈ path.splitOn '/') :
    '/' ∉ c := by
  induction path generalizing c with
  | nil =>
      rw [List.splitOn_nil, List.mem_singleton] at hc
      rw [hc]
      exact List.not_mem_nil
  | cons d rest ih =>
      obtain ⟨first, others, hsplit⟩ := List.exists_cons_of_ne_nil
        (List.splitOn_ne_nil '/' rest)
      rw [List.splitOn_cons_eq_if_modifyHead] at hc
      by_cases hslash : d = '/'
      · rw [if_pos (by simpa using hslash)] at hc
        obtain heq | hlater := List.mem_cons.mp hc
        · rw [heq]
          exact List.not_mem_nil
        · exact ih hlater
      · rw [if_neg (by simpa using hslash), hsplit,
          List.modifyHead_cons] at hc
        rw [hsplit] at ih
        obtain heq | hlater := List.mem_cons.mp hc
        · rw [heq, List.mem_cons, not_or]
          exact ⟨Ne.symm hslash, ih List.mem_cons_self⟩
        · exact ih (List.mem_cons_of_mem first hlater)

/-- The file to read, and whether the path is refused. -/
theorem cleanPath_eq : cleanPath uriPath =
    if dot ∈ requestedNames uriPath ∨ dots ∈ requestedNames uriPath then none
    else if requestedNames uriPath = [] then some indexHtml
    else some (uriPath.dropWhile (· = '/')) := by
  have hmem : ∀ {c : List Char}, c ≠ [] →
      (c ∈ (uriPath.dropWhile (· = '/')).splitOn '/' ↔
        c ∈ requestedNames uriPath) := by
    intro c hc
    rw [← splitOn_dropWhile, List.mem_filter]
    simp [hc]
  unfold cleanPath
  dsimp only
  by_cases hnone : requestedNames uriPath = []
  · have hindex : ((indexHtml.splitOn '/').any fun c => c = dots ∨ c = dot) =
        false := by
      decide
    rw [if_pos (dropWhile_eq_nil_iff.mpr hnone), hnone, hindex]
    rfl
  · have hsome : uriPath.dropWhile (· = '/') ≠ [] :=
      fun hnil => hnone (dropWhile_eq_nil_iff.mp hnil)
    rw [if_neg hsome, if_neg hnone]
    congr 1
    rw [List.any_eq_true, eq_iff_iff]
    constructor
    · intro hbad
      obtain ⟨c, hc, heq⟩ := hbad
      obtain heq | heq := of_decide_eq_true heq
      · subst heq
        exact .inr ((hmem (by decide)).mp hc)
      · subst heq
        exact .inl ((hmem (by decide)).mp hc)
    · intro hbad
      obtain hdot | hdots := hbad
      · exact ⟨dot, (hmem (by decide)).mpr hdot, by simp⟩
      · exact ⟨dots, (hmem (by decide)).mpr hdots, by simp⟩

theorem splitOn_join (hhead : path.head? ≠ some '/') : ∃ front,
    (FileTree.join root path).splitOn '/' = front ++ path.splitOn '/' := by
  unfold FileTree.join
  rw [if_neg hhead]
  split
  · rename_i hbase
    obtain hempty | hslash := hbase
    · subst hempty
      exact ⟨[], rfl⟩
    · obtain ⟨front, rfl⟩ := List.getLast?_eq_some_iff.mp hslash
      refine ⟨front.splitOn '/', ?_⟩
      rw [List.append_assoc, List.singleton_append,
        List.splitOn_append_cons_self]
  · exact ⟨root.splitOn '/', List.splitOn_append_cons_self root path⟩

theorem fileName_join {name : List Char} (hhead : path.head? ≠ some '/')
    (hlast : ((path.splitOn '/').filter fun c => c ≠ [] ∧ c ≠ dot).getLast? =
      some name) :
    fileName (FileTree.join root path) =
      if name = dots then none else some name := by
  obtain ⟨front, hsplit⟩ : ∃ front, (FileTree.join root path).splitOn '/' =
      front ++ path.splitOn '/' := splitOn_join hhead
  unfold fileName
  rw [hsplit, List.filter_append, List.getLast?_append, hlast]
  rfl

theorem fileName_self {name : List Char} (hname : Ordinary name)
    (hslash : '/' ∉ name) : fileName name = some name := by
  unfold fileName
  obtain ⟨hne, hdot, hdots⟩ := hname
  rw [List.splitOn_eq_singleton hslash,
    List.filter_cons_of_pos (by simp [hne, dot, hdot])]
  exact if_neg hdots

/-- What is read below the web directory. -/
theorem read_join {content : List UInt8} (hhead : path.head? ≠ some '/')
    (hordinary : ∀ c ∈ path.splitOn '/', c = [] ∨ Ordinary c)
    (hplain : ∀ site, webSite top cwd root = some site →
      ¬ site.Crosses ((path.splitOn '/').filter (· ≠ []))) :
    FileTree.read top cwd (FileTree.join root path) = some content ↔
      (path.splitOn '/').getLast? ≠ some [] ∧
        ((webSite top cwd root).bind fun node =>
          node.descend ((path.splitOn '/').filter (· ≠ []))) =
            some (.file content) := by
  obtain ⟨left, hjoin⟩ : ∃ left, resolve top cwd (FileTree.join root path) =
      (resolve top cwd root).bind fun next =>
        walk top left next (path.splitOn '/') := resolve_join hhead
  unfold FileTree.read
  rw [hjoin]
  unfold webSite at hplain ⊢
  cases hroot : resolve top cwd root with
  | none => simp
  | some place =>
      rw [hroot, Option.map_some] at hplain
      rw [Option.bind_some, Option.map_some, Option.bind_some,
        ← walk_eq_file hordinary (hplain place.node rfl)]
      constructor
      · intro hread
        split at hread
        · rename_i held above hwalk
          cases hread
          exact ⟨above, hwalk⟩
        · cases hread
      · intro hwalk
        obtain ⟨above, hwalk⟩ := hwalk
        rw [hwalk]

/-- A path that is not refused, the names that are sought, and the text that is
joined to the web directory. -/
theorem serveFile_sought {sought : List (List Char)}
    (hclean : cleanPath uriPath = some path)
    (hhead : path.head? ≠ some '/')
    (hnames : (path.splitOn '/').filter (· ≠ []) = sought)
    (hsome : sought ≠ []) (hgood : dot ∉ sought ∧ dots ∉ sought)
    (hplain : ∀ site, webSite top cwd root = some site →
      ¬ site.Crosses sought) :
    serveFile top cwd root uriPath =
      if path.getLast? = some '/' then .problem 404 "not found"
      else
        match (webSite top cwd root).bind fun node => node.descend sought with
        | some (.file bytes) =>
            ⟨200, [(HttpResponse.CONTENT_TYPE, mimeOf (sought.getLastD []))],
              .bytes bytes⟩
        | _ => .problem 404 "not found" := by
  have hmem : ∀ c ∈ path.splitOn '/', c = [] ∨ c ∈ sought := by
    intro c hc
    by_cases hempty : c = []
    · exact .inl hempty
    · right
      rw [← hnames, List.mem_filter]
      exact ⟨hc, by simpa using hempty⟩
  have hordinary : ∀ c ∈ path.splitOn '/', c = [] ∨ Ordinary c := by
    intro c hc
    obtain hempty | hsought := hmem c hc
    · exact .inl hempty
    · by_cases hempty : c = []
      · exact .inl hempty
      · right
        refine ⟨hempty, ?_, ?_⟩
        · intro hdot
          subst hdot
          exact hgood.1 hsought
        · intro hdots
          subst hdots
          exact hgood.2 hsought
  have hread : ∀ content, FileTree.read top cwd (FileTree.join root path) =
      some content ↔ path.getLast? ≠ some '/' ∧
        ((webSite top cwd root).bind fun node => node.descend sought) =
          some (.file content) := by
    intro content
    rw [read_join hhead hordinary (hnames ▸ hplain), hnames, Ne, getLast?_splitOn, not_or]
    have hpath : path ≠ [] := by
      intro hnil
      subst hnil
      exact hsome (hnames ▸ rfl)
    simp [hpath]
  obtain ⟨last, hlast⟩ := Option.ne_none_iff_exists'.mp
    (fun hnone => hsome (List.getLast?_eq_none_iff.mp hnone))
  have hfound : last ∈ sought := List.mem_of_getLast? hlast
  have hkept : ((path.splitOn '/').filter fun c => c ≠ [] ∧ c ≠ dot) =
      sought := by
    rw [← hnames]
    apply List.filter_congr
    intro c hc
    obtain hempty | hsought := hmem c hc
    · simp [hempty]
    · have hne : c ≠ dot := fun heq => hgood.1 (heq ▸ hsought)
      simp [hne]
  have hmime : mimeOf (FileTree.join root path) =
      mimeOf (sought.getLastD []) := by
    rw [← hnames, List.mem_filter] at hfound
    obtain ⟨hpart, hne⟩ := hfound
    have hself : Ordinary last :=
      (hordinary last hpart).resolve_left (of_decide_eq_true hne)
    have hslash : '/' ∉ last := slash_not_mem hpart
    have hjoined : fileName (FileTree.join root path) = some last := by
      rw [fileName_join hhead (hkept ▸ hlast)]
      exact if_neg hself.2.2
    have hgetLast : sought.getLastD [] = last := by
      rw [List.getLastD_eq_getLast?, hlast]
      rfl
    unfold mimeOf extension
    rw [hjoined, hgetLast, fileName_self hself hslash]
  unfold serveFile
  rw [hclean]
  dsimp only
  cases hcontent : FileTree.read top cwd (FileTree.join root path) with
  | some content =>
      obtain ⟨hend, hfile⟩ := (hread content).mp hcontent
      rw [if_neg hend, hfile, hmime]
  | none =>
      by_cases hend : path.getLast? = some '/'
      · rw [if_pos hend]
      · rw [if_neg hend]
        dsimp only
        split
        · rename_i bytes hfile
          rw [(hread bytes).mpr ⟨hend, hfile⟩] at hcontent
          cases hcontent
        · rfl

theorem head?_dropWhile :
    (uriPath.dropWhile (· = '/')).head? ≠ some '/' := by
  intro hhead
  have hnot := List.head?_dropWhile_not (· = '/') uriPath
  rw [hhead] at hnot
  simp at hnot

theorem getLast?_dropWhile (h : requestedNames uriPath ≠ []) :
    (uriPath.dropWhile (· = '/')).getLast? = uriPath.getLast? := by
  have hne : uriPath.dropWhile (· = '/') ≠ [] :=
    fun hnil => h (dropWhile_eq_nil_iff.mp hnil)
  conv_rhs => rw [← List.takeWhile_append_dropWhile (p := (· = '/'))
    (l := uriPath)]
  rw [List.getLast?_append_of_ne_nil _ hne]

/-- What is sent is what the directory publishes. -/
theorem serveFile_eq (hplain : ∀ site, webSite top cwd root = some site →
      ¬ site.Crosses (soughtNames uriPath)) :
    serveFile top cwd root uriPath =
      published (webSite top cwd root) uriPath := by
  have hclean : cleanPath uriPath = _ := cleanPath_eq
  unfold soughtNames at hplain
  unfold published soughtNames
  dsimp only
  by_cases hbad : dot ∈ requestedNames uriPath ∨ dots ∈ requestedNames uriPath
  · rw [if_pos hbad] at hclean ⊢
    unfold serveFile
    rw [hclean]
  · rw [if_neg hbad] at hclean ⊢
    by_cases hnone : requestedNames uriPath = []
    · rw [if_pos hnone] at hclean
      have hindex : (indexHtml.splitOn '/').filter (· ≠ []) = [indexHtml] := by
        decide
      rw [if_pos hnone] at hplain
      rw [if_neg (fun hboth => hboth.1 hnone), if_pos hnone,
        serveFile_sought hclean (by decide) hindex (by decide) (by decide)
          hplain]
      exact if_neg (by decide)
    · rw [if_neg hnone] at hclean
      rw [if_neg hnone] at hplain
      rw [serveFile_sought hclean head?_dropWhile splitOn_dropWhile hnone
        (not_or.mp hbad) hplain, getLast?_dropWhile hnone, if_neg hnone]
      congr 1
      rw [eq_iff_iff]
      exact ⟨fun hend => ⟨hnone, hend⟩, fun hboth => hboth.2⟩

end Requests

/-- Whatever the path of a request is, if it crosses no link the response depends
on nothing but the directory; and every file in it, however deep, is sent under
its own path if that path needs no escapes. -/
theorem static_files_published (top cwd : Place) (root : List Char) :
    (∀ uriPath, (∀ site, webSite top cwd root = some site →
        ¬ site.Crosses (soughtNames uriPath)) →
      serveFile top cwd root uriPath =
        published (webSite top cwd root) uriPath) ∧
    ∀ site names content, webSite top cwd root = some site →
      names ≠ [] →
      (∀ name ∈ names, Ordinary name ∧ name.all standsForItself = true) →
      site.descend names = some (.file content) →
      serveFile top cwd root ('/' :: ['/'].intercalate names) =
        ⟨200, [(HttpResponse.CONTENT_TYPE, mimeOf (names.getLastD []))],
          .bytes content⟩ := by
  refine ⟨fun uriPath => serveFile_eq, ?_⟩
  intro site names content hsite hsome hordinary hfile
  have hslash : ∀ name ∈ names, '/' ∉ name := by
    intro name hname hmem
    have hitself := List.all_eq_true.mp (hordinary name hname).2 '/' hmem
    exact absurd hitself (by decide)
  have hsplit : ('/' :: ['/'].intercalate names).splitOn '/' = [] :: names := by
    have hcut := List.splitOn_append_cons_self (a := '/') []
      (['/'].intercalate names)
    rw [List.splitOn_intercalate '/' hslash hsome] at hcut
    exact hcut
  have hnames : requestedNames ('/' :: ['/'].intercalate names) = names := by
    unfold requestedNames
    rw [hsplit, List.filter_cons_of_neg (by simp), List.filter_eq_self]
    intro name hname
    simpa using (hordinary name hname).1.1
  have hgood : ¬ (dot ∈ names ∨ dots ∈ names) := by
    intro hbad
    obtain hdot | hdots := hbad
    · exact (hordinary dot hdot).1.2.1 rfl
    · exact (hordinary dots hdots).1.2.2 rfl
  have hend : ('/' :: ['/'].intercalate names).getLast? ≠ some '/' := by
    intro hslash
    have hlast := getLast?_splitOn.mpr (.inr hslash)
    obtain ⟨last, hget⟩ := Option.ne_none_iff_exists'.mp
      (fun hnone => hsome (List.getLast?_eq_none_iff.mp hnone))
    rw [hsplit, List.getLast?_cons_of_ne_nil hsome, hget,
      Option.some.injEq] at hlast
    exact (hordinary last (List.mem_of_getLast? hget)).1.1 hlast
  have hsought : soughtNames ('/' :: ['/'].intercalate names) = names := by
    unfold soughtNames
    rw [hnames, if_neg hsome]
  have hplain : ∀ site', webSite top cwd root = some site' →
      ¬ site'.Crosses (soughtNames ('/' :: ['/'].intercalate names)) := by
    intro site' hsite'
    rw [hsite, Option.some.injEq] at hsite'
    subst hsite'
    rw [hsought]
    exact not_crosses_of_file hfile
  rw [serveFile_eq hplain, hsite]
  unfold published
  dsimp only
  rw [hnames, hsought, if_neg hgood, if_neg (fun hboth => hend hboth.2),
    Option.bind_some, hfile]

namespace LinkedSite

def site : Node :=
  .dir [(indexHtml, .file [1]), ("pkg".toList, .dir [("pir.js".toList, .file [2])]),
    ("out".toList, .link "../secret".toList), ("a b".toList, .file [3])]

/-- A disk with a secret beside the web directory, which a link leads to. -/
def disk : Place :=
  ⟨.dir [("web".toList, site), ("secret".toList, .file [4]),
    ("www".toList, .link "web".toList)], []⟩

/-- The web directory behind a link: a file in it is sent, and a path that hides
its dots finds nothing. -/
theorem static_files_published_linked :
    serveFile disk disk "/www".toList "/pkg/pir.js".toList =
        ⟨200, [(HttpResponse.CONTENT_TYPE, "text/javascript; charset=utf-8")],
          .bytes [2]⟩ ∧
      (serveFile disk disk "/www".toList "/%2e%2e/secret".toList).status =
        404 := by
  have hsite : webSite disk disk "/www".toList = some site := rfl
  refine ⟨?_, ?_⟩
  · exact (static_files_published disk disk "/www".toList).2 site
      ["pkg".toList, "pir.js".toList] [2] hsite (by decide)
      (by decide) rfl
  · rw [(static_files_published disk disk "/www".toList).1]
    · rfl
    · intro site' hsite'
      rw [hsite, Option.some.injEq] at hsite'
      subst hsite'
      intro hcrosses
      obtain ⟨node, hlookup, hcrosses⟩ := crosses_cons_iff.mp hcrosses
      cases hlookup

/-- A link is followed out of the web directory, and a name that needs an escape
is not found. -/
example :
    (serveFile disk disk "/web".toList "//../secret".toList).status = 400 ∧
      (serveFile disk disk "/web".toList "/out".toList).status = 200 ∧
      (serveFile disk disk "/web".toList "/a%20b".toList).status = 404 := by
  decide

end LinkedSite

end UsdtPir
