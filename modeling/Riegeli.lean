import Riegeli.Base
import Riegeli.PullableReader
import Riegeli.PullableReaderOps
import Riegeli.PullableReaderInvariant
import Riegeli.PullableReaderSpec
import Riegeli.PullableReaderRefinement
import Riegeli.PullableReaderPulls
import Riegeli.BufferedWriter
import Riegeli.BufferedWriterSpec
import Riegeli.WriterCFile
import Riegeli.WriterCFileSpec
import Riegeli.WriterCFileRefinement
import Riegeli.IStreamReader
import Riegeli.IStreamReaderSpec
import Riegeli.Python
import Riegeli.StringReader
import Riegeli.WriterCFileBuffered
