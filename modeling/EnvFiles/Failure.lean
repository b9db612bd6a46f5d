import EnvFiles.Data.Fault
import EnvFiles.Path
import EnvFiles.Text.Quoted

/-!
# What can go wrong

Every run that does not end normally ends with one of these causes. The wording shown to a
user is given once, by `Failure.message`; causes that come from the file system or from the end
of the replies have no wording of their own.
-/

namespace EnvFiles

/-- The formats in which settings are written. -/
inductive DataFormat
  | json
  | yaml
  | toml
  deriving DecidableEq, Repr, Inhabited

/-- The name of the fault of a text that does not follow its format. -/
def DataFormat.faultName : DataFormat → Text
  | .json => "JSONDecodeError"
  | .yaml => "YAMLError"
  | .toml => "TOMLDecodeError"

/-- What is wrong with a value at one place of a configuration or a definition. -/
inductive Problem
  | textExpected
  | listExpected
  | mappingExpected
  | sectionExpected
  | fixedChoice
  /-- A choice is a text that holds surrogate halves. -/
  | halvedText
  | levelExpected
  | missing
  | malformedDirective
  deriving DecidableEq, Repr, Inhabited

/-- One fault of a configuration or a definition, with the keys and indexes that lead to it. -/
structure Issue where
  place : List Text
  problem : Problem
  deriving DecidableEq, Repr, Inhabited

/-- The place of an issue below one more key. -/
def Issue.under (key : Text) (issue : Issue) : Issue := { issue with place := key :: issue.place }

/-- Why a configuration file cannot be used. -/
inductive ConfigFault
  | undecodable
  | malformed (format : DataFormat)
  /-- The file asks for a value that does not exist. -/
  | noValue (fault : ValueFault)
  | notMapping (found : Text)
  | invalid (issues : List Issue)
  deriving DecidableEq, Repr, Inhabited

/-- The causes of failure. -/
inductive Failure
  /-- A question was asked and no reply is left. -/
  | outOfReplies
  /-- A file is not UTF-8 text. -/
  | undecodable
  | fileMissing
  | notDirectory
  | isDirectory
  | alreadyExists
  /-- A path leads through more links than are followed. -/
  | tooManyLinks
  /-- Following links from the path never ends. -/
  | endlessLinks (path : Path)
  /-- A plugin gave up with a message. -/
  | pluginFailed (message : Text)
  | unknownRequirement (word : Text)
  | registryFrozen
  | duplicatePlugin (name : Text)
  | unusableSource (plugin shown : Text)
  /-- What was offered as a plugin has none of a plugin's parts. -/
  | notAPlugin
  | unknownWrappers (names : List Text)
  | unknownFormat (format : Text)
  | emptyPattern
  | misplacedDoubleStar
  | absolutePattern
  | currentDirectoryPattern
  | bareSeparatorPattern
  /-- A list of workspace patterns was expected and something without members was found. -/
  | notAList (found : Text)
  /-- A scanned file does not lie below the base of the scan. -/
  | outsideBase
  | invalidSettings (issues : List Issue)
  | unusableConfig (path : Path) (fault : ConfigFault)
  /-- The table of tools in a project file is not a table. -/
  | toolsNotTable
  /-- A file asks for a value that does not exist. -/
  | noValue (fault : ValueFault)
  /-- A file holds a number that is too large to compute with. -/
  | numberTooLarge
  /-- A file holds collections in one another that are not followed to the end. -/
  | nestedTooDeep
  /-- There is no workspace to work on. -/
  | noWorkspace
  deriving DecidableEq, Repr, Inhabited

/-- Quoted names, separated by commas, in brackets. -/
def quotedNames (names : List Text) : Text :=
  "[" ++ Text.join ", " (names.map Text.quoted) ++ "]"

/-- The wrappers that a store can be given. -/
def storeWrapperNames : List Text := ["dry_run", "logging"]

/-- The formats in which values are exported. -/
def exportFormatNames : List Text := ["json", "shell", "values", "vercel"]

/-- The wording of a cause. -/
def Failure.message : Failure → Text
  | .pluginFailed message => message
  | .unknownRequirement word => Text.quoted word ++ " is not a valid RequirementLevel"
  | .registryFrozen => "Plugin registry is frozen; register plugins at startup"
  | .duplicatePlugin name => "Plugin '" ++ name ++ "' already registered"
  | .unusableSource plugin shown =>
    "Plugin '" ++ plugin ++ "' value source " ++ shown ++
      " does not implement directive_kind, pattern and resolve"
  | .unknownWrappers names =>
    "Unknown store wrapper(s): " ++ quotedNames names ++ ". Use: " ++
      quotedNames storeWrapperNames
  | .unknownFormat format =>
    "Unknown format: " ++ format ++ ". Use: " ++ Text.join ", " exportFormatNames
  | .emptyPattern => "Unacceptable pattern: ''"
  | .misplacedDoubleStar => "Invalid pattern: '**' can only be an entire path component"
  | .notAPlugin => "<AttributeError>"
  | .absolutePattern => "Non-relative patterns are unsupported"
  | .notAList found => "'" ++ found ++ "' object is not iterable"
  | .endlessLinks path => "Symlink loop from " ++ Text.quoted path.written
  | .noValue fault => fault.message
  | .unusableConfig path _ => "Failed to load env-vars-doctor config from " ++ path.written
  | _ => []

end EnvFiles
