import ServiceMetadata.Descriptor.Building
import ServiceMetadata.Manifest.Inheritance

/-! # Batches

A batch writes a descriptor for every record of a concrete class, each to a file named after its
class in the output root: first those of services, then those of data sources. A file that cannot be
written does not stop the batch; an output root that cannot be made does. -/
namespace ServiceMetadata

structure Batch where
  vocabulary : Vocabulary
  outputRoot : String
  workingDirectory : String

def defaultOutputRoot : String := "src/main/resources/metadata"

def defaultWorkingDirectory : String := "."

inductive Job where
  | service (e : Element) (own : ServiceRecord)
  | dataSource (e : Element) (r : DataSourceRecord)
  deriving DecidableEq

def Job.element : Job → Element
  | .service e _ => e
  | .dataSource e _ => e

def jobs (elements : List Element) : List Job :=
  (elements.filterMap fun e => e.service.map (.service e)) ++
    elements.filterMap fun e => e.dataSource.map (.dataSource e)

inductive Outcome where
  | written (path : String)
  | skipped (className : String)
  | failed (className : String) (cause : Error)

structure Report where
  written : List String
  skipped : List String
  failed : List (String × Error)

def Outcome.written? : Outcome → Option String
  | .written path => some path
  | _ => none

def Outcome.skipped? : Outcome → Option String
  | .skipped className => some className
  | _ => none

def Outcome.failed? : Outcome → Option (String × Error)
  | .failed className cause => some (className, cause)
  | _ => none

namespace Report

def ofOutcomes (outcomes : List Outcome) : Report where
  written := outcomes.filterMap Outcome.written?
  skipped := outcomes.filterMap Outcome.skipped?
  failed := outcomes.filterMap Outcome.failed?

def isClean (r : Report) : Bool := r.failed.isEmpty

end Report

namespace Batch

def pathOf (outputRoot className : String) : String := Path.join outputRoot (className ++ ".json")

def descriptorPath (b : Batch) (className : String) : String := pathOf b.outputRoot className

def project (b : Batch) (t : FileTree) : Project := { tree := t, directory := b.workingDirectory }

def descriptorText (b : Batch) (t : FileTree) : Job → String
  | .service e own =>
    ServiceDescriptor.shape.print
      (ServiceDescriptor.build b.vocabulary (b.project t) e.name e.common own)
  | .dataSource e r =>
    DataSourceDescriptor.shape.print
      (DataSourceDescriptor.build b.vocabulary (b.project t) e.name r)

def runJob (b : Batch) (t : FileTree) (job : Job) : Outcome × FileTree :=
  let e := job.element
  if e.isConcreteClass then
    let path := b.descriptorPath e.name
    match t.write path (b.descriptorText t job).toUTF8 with
    | .ok t' => (.written path, t')
    | .error cause => (.failed e.name (.file path cause), t)
  else (.skipped e.name, t)

def runJobs (b : Batch) (t : FileTree) : List Job → List Outcome × FileTree
  | [] => ([], t)
  | job :: rest =>
    let (outcome, t) := b.runJob t job
    let (outcomes, t) := b.runJobs t rest
    (outcome :: outcomes, t)

/-- Runs the batch on elements. Gives the tree also if the output root cannot be made, since some of
the directories above it may have been. -/
def run (b : Batch) (t : FileTree) (elements : List Element) : Except Error Report × FileTree :=
  match t.makeDirectories b.outputRoot with
  | (t, some cause) => (.error (.outputRoot b.outputRoot cause), t)
  | (t, none) =>
    let (outcomes, t) := b.runJobs t (jobs elements)
    (.ok (.ofOutcomes outcomes), t)

end Batch
end ServiceMetadata
