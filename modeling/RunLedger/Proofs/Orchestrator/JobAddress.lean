import RunLedger.Orchestrator.Basic
import RunLedger.Proofs.Http.Url
import RunLedger.Uuid

/-!
The request that takes a job off. The job's name is put into the address as it is, so what the
request is about is read from what it names: behind the path of the orchestrator and the collection
of jobs stands what is decoded to the name of a job, and the query says whether to forget the job.
Main statement: the request is about the job whose name was given exactly when the name stands for
itself at the end of an address. The written identifiers that runs have do.
-/

set_option autoImplicit false

namespace RunLedger.Orchestrator

open Http.Url (IsLiteral parse? queryPart?)
open Http.Percent (decode encode keptInPath keptInQuery)

/-! ### What a request is about -/

def Request.path (r : Request) : List Char := r.target.toList.takeWhile (· ≠ '?')

def Request.query (r : Request) : List Char := (r.target.toList.dropWhile (· ≠ '?')).tail

/-- A query that says whether to purge, and nothing else. -/
def purgeQuery (purge : Bool) : String := "purge=" ++ if purge then "true" else "false"

/-- Whether a request is about a job, and about purging it or not: behind the path of the
orchestrator, here `front`, and the collection of jobs the name of the job is decoded. -/
structure Request.IsAbout (r : Request) (front job : String) (purge : Bool) : Prop where
  path : ∃ rest, r.path = (front ++ "v1/job/").toList ++ rest ∧ decode rest = Text.Utf8.encode job
  query : r.query = (purgeQuery purge).toList

variable {address front job job' : String} {token header : Option String} {root : Http.Url}
variable {purge purge' : Bool} {r r' : Request}

private theorem Request.IsAbout.eq_of_path_eq (h : r.IsAbout front job purge)
    (h' : r'.IsAbout front job' purge') (hpath : r.path = r'.path) : job = job' := by
  obtain ⟨rest, hrest, hjob⟩ := h.path
  obtain ⟨rest', hrest', hjob'⟩ := h'.path
  rw [hrest, hrest', List.append_cancel_left_eq] at hpath
  rw [hpath, hjob'] at hjob
  exact (Text.Utf8.encode_inj.1 hjob).symm

private theorem Request.path_query_of_target {path query : String} (hpath : '?' ∉ path.toList)
    (h : r.target = path ++ "?" ++ query) : r.path = path.toList ∧ r.query = query.toList := by
  have htarget : r.target.toList = path.toList ++ '?' :: query.toList := by simp [h]
  have hall : ∀ c ∈ path.toList, decide (c ≠ '?') = true :=
    fun c hc => decide_eq_true fun heq => hpath (heq ▸ hc)
  rw [Request.path, Request.query, htarget]
  constructor
  · rw [Http.Url.takeWhile_append_cons (by decide), List.takeWhile_eq_self_iff]
    exact hall
  · rw [Http.Url.dropWhile_append_cons (by decide), List.dropWhile_eq_nil_iff.2 hall]
    rfl

/-! ### The request that is made -/

/-- The query that a job's name brings, as it stands before the parameter. -/
def addedQuery (job : String) : List Char :=
  let q := (queryPart? job.toList).getD []
  if q = [] then [] else encode keptInQuery q ++ ['&']

private theorem addedQuery_eq_nil_iff : addedQuery job = [] ↔
    (queryPart? job.toList).getD [] = [] := by
  simp [addedQuery]

private theorem ofList_addedQuery (job : String) :
    let query := (queryPart? job.toList).map fun q => String.ofList (encode keptInQuery q)
    String.ofList (addedQuery job) =
      if query.getD "" = "" then "" else query.getD "" ++ "&" := by
  intro query
  simp only [query, addedQuery]
  cases queryPart? job.toList with
  | none => rfl
  | some q =>
    simp only [Option.map_some, Option.getD_some, String.ofList_eq_empty_iff,
      Http.Percent.encode_eq_nil_iff]
    split
    · rfl
    · rw [String.ofList_append]

private theorem purgeQuery_eq (purge : Bool) :
    purgeQuery purge = String.ofList (Http.Percent.encodeForm "purge" ++
      '=' :: Http.Percent.encodeForm (if purge = true then "true" else "false")) := by
  cases purge <;> decide

private theorem parse?_jobs (h : parse? (address ++ "/") = some root)
    (hplain : ∀ c ∈ address.toList, Http.Url.endsPath c = false) :
    ∃ jobs, parse? (address ++ "/v1/job" ++ "/") = some jobs ∧ jobs.authority = root.authority ∧
      jobs.path = root.path ++ "v1/job/" := by
  have hliteral : IsLiteral "v1/job/".toList := by decide
  obtain ⟨jobs, hjobs, hhost, -, -, hpath, -⟩ := Http.Url.parse?_append h hplain "v1/job/"
  refine ⟨jobs, ?_, hhost, ?_⟩
  · rw [← hjobs, String.append_assoc, String.append_assoc]
    rfl
  · rw [hpath hliteral]
    rfl

private theorem parse?_job (h : parse? (address ++ "/") = some root)
    (hplain : ∀ c ∈ address.toList, Http.Url.endsPath c = false) (job : String) :
    ∃ u, parse? (address ++ "/v1/job/" ++ job) = some u ∧ u.authority = root.authority ∧
      '?' ∉ u.path.toList ∧
      u.query = (queryPart? job.toList).map (fun q => String.ofList (encode keptInQuery q)) ∧
      ((∃ rest, u.path.toList = (root.path ++ "v1/job/").toList ++ rest ∧
        decode rest = Text.Utf8.encode job) ↔ IsLiteral job.toList) := by
  obtain ⟨jobs, hjobs, hhost, hfront⟩ := parse?_jobs h hplain
  have hplain' : ∀ c ∈ (address ++ "/v1/job").toList, Http.Url.endsPath c = false := by
    intro c hc
    rw [String.toList_append] at hc
    rcases List.mem_append.1 hc with hc | hc
    · exact hplain c hc
    · have hall : "/v1/job".toList.all (!Http.Url.endsPath ·) = true := by decide
      simpa using List.all_eq_true.1 hall c hc
  obtain ⟨u, hu, hsame, hmark, hquery, -, habout⟩ := Http.Url.parse?_append hjobs hplain' job
  have haddress : address ++ "/v1/job" ++ "/" = address ++ "/v1/job/" := String.append_assoc
  rw [haddress] at hu
  exact ⟨u, hu, hsame.trans hhost, hmark, hquery, hfront ▸ habout⟩

/-- The request for a job is sent to the host of the orchestrator. What the name of the job adds to
the query stands before whether to purge, and what the path names is the job exactly when its name
stands for itself. -/
private theorem deregistration_eq_ok (h : parse? (Http.trimSlashes address ++ "/") = some root)
    (hplain : ∀ c ∈ (Http.trimSlashes address).toList, Http.Url.endsPath c = false)
    (htoken : token.mapM headerValue? = some header) (job : String) (purge : Bool) :
    ∃ u request, parse? (Http.trimSlashes address ++ "/v1/job/" ++ job) = some u ∧
      u.authority = root.authority ∧
      deregistration address token job purge = .ok request ∧ request.method = "DELETE" ∧
      request.token = header ∧
      request.query = addedQuery job ++ (purgeQuery purge).toList ∧
      ((∃ rest, request.path = (root.path ++ "v1/job/").toList ++ rest ∧
        decode rest = Text.Utf8.encode job) ↔ IsLiteral job.toList) := by
  obtain ⟨u, hu, hhost, hmark, hquery, habout⟩ := parse?_job h hplain job
  obtain ⟨request, hrequest⟩ : ∃ request : Request, request = ⟨"DELETE",
      (u.withQuery [("purge", if purge = true then "true" else "false")]).target, header⟩ :=
    ⟨_, rfl⟩
  have hsent : request.target =
      u.path ++ "?" ++ String.ofList (addedQuery job ++ (purgeQuery purge).toList) := by
    rw [hrequest, Http.Url.target_withQuery, ← purgeQuery_eq, hquery, ← ofList_addedQuery,
      String.append_assoc, String.ofList_append, String.ofList_toList]
  obtain ⟨hpath, hasked⟩ := Request.path_query_of_target hmark hsent
  refine ⟨u, request, hu, hhost, ?_, ?_, ?_, ?_, ?_⟩
  · rw [deregistration, hu, htoken, hrequest]
  · rw [hrequest]
  · rw [hrequest]
  · rw [hasked, String.toList_ofList]
  · rw [hpath, habout]

private theorem isLiteral_toString (id : Uuid) : IsLiteral id.toString.toList := by
  have hall : "-0123456789abcdef".toList.all (fun c =>
      c ∉ ['?', '#', '\\', '\t', '\n', '\r', '%', '.'] && !Http.Url.isEdge c) = true := by
    decide
  have hplain : ∀ c ∈ id.toString.toList,
      c ∉ ['?', '#', '\\', '\t', '\n', '\r', '%', '.'] ∧ Http.Url.isEdge c = false := by
    intro c hc
    simpa only [Bool.and_eq_true, decide_eq_true_eq, Bool.not_eq_true'] using
      List.all_eq_true.1 hall c (Uuid.mem_toString hc)
  refine ⟨fun c hc hmem => (hplain c hc).1 ?_, fun c hc => (hplain c (List.mem_of_getLast? hc)).2,
    Http.Percent.hasEscape_eq_false_of_notMem fun hc => (hplain _ hc).1 (by decide), fun s hs => ?_⟩
  · have hmore := List.mem_append_left ['%', '.'] hmem
    exact hmore
  · have hdot : '.' ∉ s :=
      fun hc => (hplain _ ((Http.Url.infix_of_mem_split hs).subset hc)).1 (by decide)
    exact ⟨fun heq => hdot (by simp [heq]), fun heq => hdot (by simp [heq])⟩

/-- For every name of a job there is one request, and it is sent to the host of the orchestrator. It
is about the job exactly when the name stands for itself at the end of an address, and it asks for
nothing but whether to purge exactly when the name brings no query. So requests for two jobs whose
names stand for themselves differ in their paths, and the names that runs have are such names. -/
theorem request_is_about_job_iff_isLiteral
    (h : parse? (Http.trimSlashes address ++ "/") = some root) (hmark : '?' ∉ address.toList)
    (hsign : '#' ∉ address.toList) (htoken : token.mapM headerValue? = some header) :
    (∀ job purge, ∃ u request, parse? (Http.trimSlashes address ++ "/v1/job/" ++ job) = some u ∧
      u.authority = root.authority ∧
      deregistration address token job purge = .ok request ∧ request.method = "DELETE" ∧
      request.token = header ∧
      (request.IsAbout root.path job purge ↔ IsLiteral job.toList) ∧
      (request.query = (purgeQuery purge).toList ↔ (queryPart? job.toList).getD [] = [])) ∧
    (∀ job job' purge purge' r r', deregistration address token job purge = .ok r →
      deregistration address token job' purge' = .ok r' → IsLiteral job.toList →
      IsLiteral job'.toList → r.path = r'.path → job = job') ∧
    ∀ id : Uuid, IsLiteral id.toString.toList := by
  have hplain : ∀ c ∈ (Http.trimSlashes address).toList, Http.Url.endsPath c = false := by
    intro c hc
    have hc : c ∈ address.toList := by
      rw [Http.trimSlashes, String.toList_ofList, List.mem_reverse] at hc
      simpa using (List.dropWhile_sublist _).subset hc
    have hne : c ≠ '?' ∧ c ≠ '#' := ⟨fun heq => hmark (heq ▸ hc), fun heq => hsign (heq ▸ hc)⟩
    simp [Http.Url.endsPath, hne]
  have habout : ∀ job purge request, deregistration address token job purge = .ok request →
      (request.IsAbout root.path job purge ↔ IsLiteral job.toList) ∧
      (request.query = (purgeQuery purge).toList ↔ (queryPart? job.toList).getD [] = []) := by
    intro job purge request hrequest
    obtain ⟨u, _, -, -, hok, -, -, hquery, hpath⟩ := deregistration_eq_ok h hplain htoken job purge
    obtain rfl := Except.ok.inj (hrequest.symm.trans hok)
    have hasked : request.query = (purgeQuery purge).toList ↔
        (queryPart? job.toList).getD [] = [] := by
      rw [hquery, List.append_left_eq_self, addedQuery_eq_nil_iff]
    refine ⟨⟨fun h => hpath.1 h.path, fun h => ⟨hpath.2 h, hasked.2 ?_⟩⟩, hasked⟩
    rw [h.queryPart?_eq]
    rfl
  refine ⟨fun job purge => ?_, fun job job' purge purge' r r' hr hr' hjob hjob' => ?_,
    isLiteral_toString⟩
  · obtain ⟨u, request, hu, hhost, hok, hmethod, hheader, -, -⟩ :=
      deregistration_eq_ok h hplain htoken job purge
    exact ⟨u, request, hu, hhost, hok, hmethod, hheader, habout job purge request hok⟩
  · exact ((habout job purge r hr).1.2 hjob).eq_of_path_eq ((habout job' purge' r' hr').1.2 hjob')

/-- A job whose name has a slash, a blank and a percent sign is named in the request, by another
path than the job without the percent sign. -/
theorem request_for_nested_job :
    parse? (Http.trimSlashes "http://127.0.0.1:4646/" ++ "/") =
        some ⟨"127.0.0.1:4646", "/", none⟩ ∧
      IsLiteral "batch/50% done".toList ∧ IsLiteral "batch/50 done".toList ∧
      ∃ request other,
        deregistration "http://127.0.0.1:4646/" none "batch/50% done" false = .ok request ∧
        request.IsAbout "/" "batch/50% done" false ∧
        deregistration "http://127.0.0.1:4646/" none "batch/50 done" true = .ok other ∧
        other.IsAbout "/" "batch/50 done" true ∧ request.path ≠ other.path := by
  have hparse : parse? (Http.trimSlashes "http://127.0.0.1:4646/" ++ "/") =
      some ⟨"127.0.0.1:4646", "/", none⟩ := by decide +kernel
  have hliteral : IsLiteral "batch/50% done".toList := by decide
  have hother : IsLiteral "batch/50 done".toList := by decide
  have htoken : (none : Option String).mapM headerValue? = some none := rfl
  obtain ⟨habout, hsame, -⟩ :=
    request_is_about_job_iff_isLiteral hparse (by decide) (by decide) htoken
  obtain ⟨_, request, -, -, hok, -, -, hjob, -⟩ := habout "batch/50% done" false
  obtain ⟨_, other, -, -, hok', -, -, hjob', -⟩ := habout "batch/50 done" true
  refine ⟨hparse, hliteral, hother, request, other, hok, hjob.2 hliteral, hok', hjob'.2 hother,
    fun hpath => ?_⟩
  exact absurd (hsame _ _ _ _ _ _ hok hok' hliteral hother hpath) (by decide)

/-- A question mark in the name of a job adds a parameter of the name's own, before the one that is
asked for; what stands behind a number sign is lost, and dots name something else than a job. -/
theorem question_mark_in_job_name :
    deregistration "http://127.0.0.1:4646" none "a?purge=true" false =
        .ok ⟨"DELETE", "/v1/job/a?purge=true&purge=false", none⟩ ∧
      deregistration "http://127.0.0.1:4646" none "a#b" false =
        deregistration "http://127.0.0.1:4646" none "a" false ∧
      deregistration "http://127.0.0.1:4646" none ".." false =
        .ok ⟨"DELETE", "/v1/?purge=false", none⟩ ∧
      ¬ ∀ job purge, ∃ request,
        deregistration "http://127.0.0.1:4646" none job purge = .ok request ∧
          request.IsAbout "/" job purge := by
  have hmark : deregistration "http://127.0.0.1:4646" none "a?purge=true" false =
      .ok ⟨"DELETE", "/v1/job/a?purge=true&purge=false", none⟩ := by rfl
  refine ⟨hmark, by rfl, by rfl, fun h => ?_⟩
  obtain ⟨request, hok, habout⟩ := h "a?purge=true" false
  obtain rfl := Except.ok.inj (hmark.symm.trans hok)
  exact absurd habout.query (by decide)

end RunLedger.Orchestrator
