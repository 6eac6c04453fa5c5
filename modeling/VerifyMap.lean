import VerifyMap.Regex
import VerifyMap.Backtrack
import VerifyMap.Lines
import VerifyMap.Python
import VerifyMap.Catalog
import VerifyMap.Parser
import VerifyMap.Tables
import VerifyMap.Rules
import VerifyMap.Engine
import VerifyMap.Exceptions
import VerifyMap.DgroupSize
import VerifyMap.LineScan
import VerifyMap.RequiredSymbols
import VerifyMap.Verdict
import VerifyMap.Overlay
import VerifyMap.BuildMode
import VerifyMap.MapLines
import VerifyMap.MapImage
