import PeakLang.Yaml.Document

namespace PeakLang.Yaml

/-- Reads the first document of a text, if there is one. Every token takes a character, or is an end or a
start of something that another token closes or opens, so the steps are enough. -/
def read (t : Text) : Except Fault (Option Document) :=
  let input := Input.ofText t
  let document := Reader.document (16 * t.length + 64)
  ((document.run .initial).run (.ofInput input)).map fun ((found, _), _) => found

end PeakLang.Yaml
