import MetricWiring.Declaration

/-!
# Metric names

A metric name is a path of segments joined with dots, from which empty segments are left out. The
name of a metric follows from its declaration: an absolute one gives the name as it stands, a named
one puts it under a namespace, and an unnamed one is named after the method, with the suffix of its
kind.
-/
namespace MetricWiring.MetricName

/-- Puts one more segment under a path. An empty segment changes nothing, and what stands under the
empty path is the segment alone. -/
def extend (path segment : String) : String :=
  if segment = "" then path
  else if path = "" then segment
  else path ++ "." ++ segment

/-- The path that leads from a namespace down through the given segments. -/
def join (space : String) (segments : List String) : String := segments.foldl extend space

@[simp] theorem join_nil (space : String) : join space [] = space := rfl

@[simp] theorem join_cons (space segment : String) (segments : List String) :
    join space (segment :: segments) = join (extend space segment) segments := rfl

@[simp] theorem extend_empty (path : String) : extend path "" = path := by simp [extend]

@[simp] theorem empty_extend (segment : String) : extend "" segment = segment := by
  by_cases h : segment = "" <;> simp [extend, h]

/-- The name of the metric that a declaration asks for on a method, under a namespace. -/
def compose (space method : String) (k : Kind) (d : Declaration) : String :=
  if d.absolute then d.name
  else if d.name = "" then join space [method, d.suffix k]
  else join space [d.name]

theorem compose_of_absolute {d : Declaration} (h : d.absolute = true) (space method : String)
    (k : Kind) : compose space method k d = d.name := by
  simp [compose, h]

end MetricWiring.MetricName
